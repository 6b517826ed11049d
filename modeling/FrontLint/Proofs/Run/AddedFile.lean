import FrontLint.Proofs.Cache.AddedFile
import FrontLint.Proofs.Files.AddedSelection
import FrontLint.Proofs.Run.Counting
import FrontLint.Proofs.Run.NoTrace

/-!
# Runs with one more file

A document that is no text, whose block is not valid, or in which nothing is to be linted does
not disturb the others. A run on a tree with such a file more does with the other documents what
it does without that file, calls the linter on the same projections, and reports the same but for
the document itself, which is skipped or failed.

## Implementation notes

The two runs are compared document by document. Up to the new document the reports are equal;
from there on they are in a relation that counting keeps. The file itself is looked at by no other
document, since a document that leads to it would be another spelling of it.
-/

namespace FrontLint

namespace Cache

variable [HashSeed] {c : Cache} {t : FileTree} {file : List Char} {content : Bytes}

/-- What comes of the content of a document. -/
def projectContent (content : Bytes) : Noted Fault (Option Projection) :=
  match Utf8.decode content with
  | .error fault => .fail (.decoding fault)
  | .ok chars => (Projection.ofText? (Text.ofChars (unifyLineEnds chars))).mapFault .projection

/-- A content of which no projection comes, but nothing that stops a run. -/
def IsBad (content : Bytes) : Prop :=
  (projectContent content).result = .ok none ∨
    ∃ fault, (projectContent content).result = .error fault ∧ fault.isOfDocument = true

theorem project_of_read (h : t.read (c.base.join (.ofText file)).text = .ok content) :
    c.project file t = projectContent content := by
  rw [project, projectContent, FileTree.readText, h]
  simp only
  cases Utf8.decode content with
  | error fault => rfl
  | ok chars => rfl

end Cache

namespace Report

/-- A relation of two reports that counting on in both keeps. -/
structure IsKept (R : Report → Report → Prop) : Prop where
  processed_eq : ∀ {r r'}, R r r' → r'.processed = r.processed
  processed : ∀ {r r'}, R r r' →
    R { r with processed := r.processed + 1 } { r' with processed := r'.processed + 1 }
  skipped : ∀ {r r'}, R r r' →
    R { r with skipped := r.skipped + 1 } { r' with skipped := r'.skipped + 1 }
  failed : ∀ {r r'} file, R r r' →
    R { r with failed := r.failed ++ [file] } { r' with failed := r'.failed ++ [file] }
  complete : ∀ {r r'} status output, R r r' →
    R { r with status := status, output := output, linted := true }
      { r' with status := status, output := output, linted := true }

/-- The second report counts one more skipped document. -/
def Skips (r r' : Report) : Prop := r' = { r with skipped := r.skipped + 1 }

/-- The second report has one more failed document, behind some others. -/
def Fails (before : List (List Char)) (file : List Char) (r r' : Report) : Prop :=
  ∃ after, r.failed = before ++ after ∧ r' = { r with failed := before ++ file :: after }

/-- A report, and the report with one more document, of which `found` came, at its place among
the others. -/
def WithDocument (found : Except Fault (Option Projection)) (front : List (List Char))
    (file : List Char) (back : List (List Char)) (r r' : Report) : Prop :=
  match found with
  | .ok _ => r' = { r with skipped := r.skipped + 1 }
  | .error _ => ∃ before after, before.Sublist front ∧ after.Sublist back ∧
      r.failed = before ++ after ∧ r' = { r with failed := before ++ file :: after }

theorem isKept_eq : IsKept Eq where
  processed_eq h := by rw [h]
  processed h := by rw [h]
  skipped h := by rw [h]
  failed _ h := by rw [h]
  complete _ _ h := by rw [h]

theorem isKept_skips : IsKept Skips where
  processed_eq h := by rw [h]
  processed h := by rw [h, Skips]
  skipped h := by rw [h, Skips]
  failed _ h := by rw [h, Skips]
  complete _ _ h := by rw [h, Skips]

theorem isKept_fails (before : List (List Char)) (file : List Char) :
    IsKept (Fails before file) where
  processed_eq := by
    rintro r r' ⟨after, -, rfl⟩
    rfl
  processed := by
    rintro r r' ⟨after, hr, rfl⟩
    exact ⟨after, hr, rfl⟩
  skipped := by
    rintro r r' ⟨after, hr, rfl⟩
    exact ⟨after, hr, rfl⟩
  failed := by
    rintro r r' other ⟨after, hr, rfl⟩
    exact ⟨after ++ [other], by rw [hr, List.append_assoc], by simp⟩
  complete := by
    rintro r r' status output ⟨after, hr, rfl⟩
    exact ⟨after, hr, rfl⟩

end Report

namespace Progress

/-- How far a run has come with a file, `p'`, and without it, `p`. -/
structure Without (R : Report → Report → Prop) (f : Location) (p p' : Progress) : Prop where
  files : p.files = p'.files.removeBelow f
  printed : p.printed = p'.printed
  report : R p.report p'.report

variable [HashSeed] {R : Report → Report → Prop} {f place : Location} {p p' : Progress}
  {cache : Cache}
  {console : Option Console} {file : List Char} {documents : List (List Char)} {content : Bytes}
  {outer tree : FileTree}

/-- A document that is processed the same counts the same. -/
theorem Without.take (hR : Report.IsKept R) (h : Without R f p p') (console : Option Console)
    (hprocess : cache.process file (p'.files.removeBelow f) =
      ((cache.process file p'.files).1, (cache.process file p'.files).2.removeBelow f)) :
    (take cache console p file).2 = (take cache console p' file).2 ∧
      Without R f (Progress.take cache console p file).1
        (Progress.take cache console p' file).1 := by
  rw [← h.files] at hprocess
  have hresult : (cache.process file p.files).1.result =
      (cache.process file p'.files).1.result := by
    rw [hprocess]
  have hfiles : (cache.process file p.files).2 = (cache.process file p'.files).2.removeBelow f := by
    rw [hprocess]
  cases hfound : (cache.process file p'.files).1.result with
  | error fault =>
      rw [hfound] at hresult
      cases hdoc : fault.isOfDocument with
      | true =>
          rw [take_of_isOfDocument hfound hdoc, take_of_isOfDocument hresult hdoc]
          exact ⟨rfl, hfiles, h.printed, hR.failed file h.report⟩
      | false =>
          rw [take_of_not_isOfDocument hfound hdoc, take_of_not_isOfDocument hresult hdoc]
          exact ⟨rfl, hfiles, h.printed, h.report⟩
  | ok found =>
      rw [hfound] at hresult
      cases found with
      | none =>
          rw [take_of_ok_none hfound, take_of_ok_none hresult]
          exact ⟨rfl, hfiles, h.printed, hR.skipped h.report⟩
      | some target =>
          rw [take_of_ok_some hfound, take_of_ok_some hresult]
          have hprinted : (p.afterProcess cache file).countProcessed.printed =
              (p'.afterProcess cache file).countProcessed.printed := h.printed
          obtain ⟨hstop, hshown⟩ := reportTo_congr hprinted console file
          refine ⟨hstop, ?_, hshown, ?_⟩
          · rw [files_reportTo, files_reportTo]
            exact hfiles
          · rw [report_reportTo, report_reportTo]
            exact hR.processed h.report

/-- A document apart from the file is processed the same without it. -/
theorem process_removeBelow_of_confined (hc : cache.Confined place outer p'.files)
    (htree : cache.Confined place outer tree) (hempty : tree.EmptyAt place)
    (hf : outer.PlainFile f content)
    (hregular : Selection.isRegular tree cache.base file = .ok true)
    (hother : ¬ tree.Spells cache.base f file) :
    cache.process file (p'.files.removeBelow f) =
      ((cache.process file p'.files).1, (cache.process file p'.files).2.removeBelow f) := by
  have hplain := hc.plainFile hf
  have hext := htree.extends_of_emptyAt hempty hc
  refine Cache.process_removeBelow (hplain.avoids fun htouch => ?_)
    (hc.spares_file hf (Path.isRead_ofText file)) hplain.ne_nil hc
  obtain ⟨hnul, location, old, hl⟩ := FileTree.isFile_eq_ok_true_iff.1 hregular
  rcases hplain.locate_of_touches htouch true with hfound | ⟨cause, hrefused⟩
  · rw [hext.locate hl] at hfound
    cases hfound
    exact hother ⟨hnul, _, hl⟩
  · rw [hext.locate hl] at hrefused
    cases hrefused

/-- Documents apart from the file count the same with it. -/
theorem Without.exists_takeAll (hR : Report.IsKept R) (htree : cache.Confined place outer tree)
    (hempty : tree.EmptyAt place) (hf : outer.PlainFile f content)
    (hdocuments : ∀ file ∈ documents, Selection.isRegular tree cache.base file = .ok true ∧
      ¬ tree.Spells cache.base f file)
    (hc : cache.Confined place outer p'.files) (h : Without R f p p') {q : Progress}
    (ht : takeAll cache console documents p = (q, none)) :
    ∃ q', takeAll cache console documents p' = (q', none) ∧ Without R f q q' ∧
      cache.Confined place outer q'.files := by
  induction documents generalizing p p' with
  | nil =>
      cases ht
      exact ⟨p', rfl, h, hc⟩
  | cons file rest ih =>
      obtain ⟨hregular, hother⟩ := hdocuments file List.mem_cons_self
      obtain ⟨m, hm, ht⟩ := takeAll_cons_eq_none_iff.1 ht
      obtain ⟨hstop, hnext⟩ := h.take hR console
        (process_removeBelow_of_confined hc htree hempty hf hregular hother)
      rw [hm] at hstop hnext
      have hconfined : cache.Confined place outer
          (Progress.take cache console p' file).1.files := by
        rw [files_take]
        exact hc.process file
      obtain ⟨q', hq, hlast⟩ :=
        ih (fun other ho => hdocuments other (List.mem_cons_of_mem _ ho)) hconfined hnext ht
      exact ⟨q', takeAll_cons_eq_none_iff.2 ⟨_, Prod.ext rfl hstop.symm, hq⟩, hlast⟩

/-- At a document of which no projection comes, only the report changes. From there on the two
reports are in a relation that places the document behind those that failed before it. -/
theorem Without.exists_insert (h : Without Eq f p p') (hbad : Cache.IsBad content)
    (hread : p'.files.read (cache.base.join (.ofText file)).text = .ok content)
    (console : Option Console)
    {front : List (List Char)} (hfront : p.report.failed.Sublist front) :
    ∃ q', Progress.take cache console p' file = (q', none) ∧
      ∃ R, Report.IsKept R ∧ Without R f p q' ∧
        ∀ r r' back more, R r r' → more.Sublist back → r.failed = p.report.failed ++ more →
          r.WithDocument (Cache.projectContent content).result front file back r' := by
  have hproject := congrArg Noted.result (Cache.project_of_read hread)
  rcases hbad with hnone | ⟨fault, herror, hdoc⟩
  · obtain ⟨hresult, hfiles⟩ := Cache.process_of_ok_none (hproject.trans hnone)
    refine ⟨_, take_of_ok_none hresult, Report.Skips, Report.isKept_skips, ⟨?_, h.printed, ?_⟩, ?_⟩
    · rw [h.files]
      exact congrArg (·.removeBelow f) hfiles.symm
    · rw [h.report]
      rfl
    · intro r r' back more hr _ _
      simp only [Report.WithDocument, hnone]
      exact hr
  · obtain ⟨hresult, hfiles⟩ := Cache.process_of_error (hproject.trans herror)
    refine ⟨_, take_of_isOfDocument hresult hdoc, Report.Fails p.report.failed file,
      Report.isKept_fails _ _, ⟨?_, h.printed, ?_⟩, ?_⟩
    · rw [h.files]
      exact congrArg (·.removeBelow f) hfiles.symm
    · rw [h.report]
      exact ⟨[], (List.append_nil _).symm, rfl⟩
    · rintro r r' back more ⟨after, hfailed, rfl⟩ hback hmore
      rw [hfailed] at hmore
      simp only [Report.WithDocument, herror]
      exact ⟨_, after, hfront, List.append_cancel_left hmore ▸ hback, hfailed, rfl⟩

/-- Such a document is inserted into a run: before it the reports are the same, and behind it
they stay in the relation that they have come to. -/
theorem exists_takeAll_insert (htree : cache.Confined place outer tree)
    (hempty : tree.EmptyAt place) (hf : outer.PlainFile f content)
    {front back : List (List Char)}
    (hdocuments : ∀ other ∈ front ++ back, Selection.isRegular tree cache.base other = .ok true ∧
      ¬ tree.Spells cache.base f other)
    (hread : tree.read (cache.base.join (.ofText file)).text = .ok content)
    (hbad : Cache.IsBad content)
    (h : takeAll cache console (front ++ back) (.start (tree.removeBelow f)) = (p, none)) :
    ∃ p', takeAll cache console (front ++ file :: back) (.start tree) = (p', none) ∧
      cache.Confined place outer p'.files ∧
      ∃ R, Report.IsKept R ∧ Without R f p p' ∧ ∀ r r', R r r' →
        r.failed = p.report.failed →
          r.WithDocument (Cache.projectContent content).result front file back r' := by
  obtain ⟨q, hfront, hback⟩ := takeAll_append_eq_none_iff.1 h
  have hstart : Without Eq f (.start (tree.removeBelow f)) (.start tree) := ⟨rfl, rfl, rfl⟩
  obtain ⟨q', hfront', hmiddle, hconfined⟩ :=
    hstart.exists_takeAll Report.isKept_eq htree hempty hf
      (fun other ho => hdocuments other (List.mem_append_left _ ho)) htree hfront
  have hbefore : q.report.failed.Sublist front := by
    obtain ⟨before, hbefore, hfailed⟩ :=
      exists_failed_takeAll cache console front (.start (tree.removeBelow f))
    rw [hfront] at hfailed
    exact hfailed ▸ hbefore
  obtain ⟨after, hafter, hfailed⟩ := exists_failed_takeAll cache console back q
  rw [hback] at hfailed
  obtain ⟨m', htake, R, hR, hinsert, hplace⟩ := hmiddle.exists_insert hbad
    ((htree.extends_of_emptyAt hempty hconfined).read hread) console hbefore
  have hconfined' : cache.Confined place outer m'.files := by
    have hfiles := @files_take cache console _ q' file
    rw [htake] at hfiles
    rw [hfiles]
    exact hconfined.process file
  obtain ⟨p', hback', hlast, hconfined''⟩ := hinsert.exists_takeAll hR htree hempty hf
    (fun other ho => hdocuments other (List.mem_append_right _ ho)) hconfined' hback
  refine ⟨p', ?_, hconfined'', R, hR, hlast, fun r r' hr hsame => ?_⟩
  · exact takeAll_append_eq_none_iff.2
      ⟨q', hfront', takeAll_cons_eq_none_iff.2 ⟨m', htake, hback'⟩⟩
  · exact hplace r r' back after hr hafter (hsame.trans hfailed)

end Progress

/-- The answers of a linter depend on a file only if it is below the directory that the linter
is called on. -/
def Linter.Ignores (linter : Linter) (f : Location) : Prop :=
  ∀ command t word place content, command.arguments.getLast? = some word →
    t.locate true word.toList = .found place .directory →
    t.find? f = some (.file content) → ¬ place <+: f →
    linter command (t.removeBelow f) = linter command t

/-- What a run leaves, prints and hands to the linter with a file, `o'`, and without it, `o`.
Below the directory that the linter is called on there is no difference. -/
structure Outcome.Without (f : Location) (o o' : Outcome) : Prop where
  files : o.files = o'.files.removeBelow f
  printed : o.printed = o'.printed
  calls : o.calls = o'.calls.map fun call => (call.1, call.2.removeBelow f)
  handed : ∀ call ∈ o'.calls, ∃ root place, call.1.arguments.getLast? = some root ∧
    call.2.locate true root.toList = .found place .directory ∧
    ∀ location, place <+: location →
      (call.2.removeBelow f).find? location = call.2.find? location

namespace Run

open FileTree

variable {request : Request} {linter : Linter} {cache : Cache} {outer tree : FileTree}
  {place f : Location} {content : Bytes} {file : List Char} {report : Report}

theorem relocate_removeBelow {t : FileTree} (h : t.PlainFile f content) (root : Path)
    (output : List Char) :
    Output.relocate (t.removeBelow f) root output = Output.relocate t root output := by
  have hlink : ∀ location, (t.removeBelow f).linkAt? location = t.linkAt? location := by
    intro location
    rw [linkAt?, linkAt?, find?_removeBelow t h.ne_nil]
    split
    · rename_i hfind
      split at hfind
      · cases hfind
      · rw [hfind]
    · split
      · rename_i target hfind
        exact absurd hfind (h.linkFree.find?_ne_link location target)
      · rfl
  rw [Output.relocate, Output.relocate, Output.rootTexts, Output.rootTexts,
    resolve_eq (current_removeBelow t f) hlink]

/-- The linter ends the same, and its output is read the same. -/
theorem complete_removeBelow {settings : Settings} {p p' : Progress}
    {R : Report → Report → Prop} (hR : Report.IsKept R) (h : Progress.Without R f p p')
    (hf : p'.files.PlainFile f content) {ending : Ending}
    (hr : complete settings cache p ending = .ok report) :
    ∃ report', complete settings cache p' ending = .ok report' ∧ R report report' ∧
      report.failed = p.report.failed := by
  rw [complete] at hr ⊢
  cases hstatus : statusAndOutput settings ending with
  | error fault =>
      rw [hstatus] at hr
      cases hr
  | ok ended =>
      rw [hstatus] at hr
      cases hr
      refine ⟨_, rfl, ?_, rfl⟩
      simp only [h.files, relocate_removeBelow hf]
      exact hR.complete _ _ h.report

/-- The linter is handed the same projections, and gives the same answer. -/
theorem exists_callLinter (hlinter : linter.Ignores f) (htree : cache.Confined place outer tree)
    (hholds : tree.HoldsFile f content) (houter : outer.PlainFile f content)
    {p p' : Progress} (hconfined : cache.Confined place outer p'.files)
    {R : Report → Report → Prop} (hR : Report.IsKept R) (h : Progress.Without R f p p')
    (hr : (callLinter request linter cache p).result = .ok report) :
    ∃ report', (callLinter request linter cache p').result = .ok report' ∧ R report report' ∧
      report.failed = p.report.failed ∧
      Outcome.Without f (callLinter request linter cache p)
        (callLinter request linter cache p') := by
  have hplain := hconfined.plainFile houter
  have hoff := hconfined.not_isPrefix_of_find? houter.isFile
  -- nor is the file above the root
  have habove : ¬ f <+: place := by
    intro hp
    have hdirectory := find?_eq_directory_of_isPrefix hholds.wellFormed
      htree.namesDirectory.isDirectory hp (fun heq => hoff (heq ▸ List.prefix_refl _))
    rw [hholds.plainFile.isFile] at hdirectory
    cases hdirectory
  have hword : (Command.lint request.settings.linter request.filter cache.root).arguments.getLast? =
      some cache.root.toString := by
    simp [Command.lint]
  have hroot : cache.root.toString.toList = cache.root.text := String.toList_ofList
  have hplace : p'.files.locate true cache.root.toString.toList = .found place .directory := by
    rw [hroot]
    exact hconfined.namesDirectory.locate true hconfined.isRead hconfined.takes
  have hanswer := hlinter _ _ _ _ _ hword hplace hplain.isFile hoff
  rw [callLinter] at hr
  simp only [h.files, hanswer] at hr
  obtain ⟨report', hreport, hkept, hfailed⟩ := complete_removeBelow hR h hplain hr
  refine ⟨report', hreport, hkept, hfailed, h.files, h.printed, ?_, fun call hcall => ?_⟩
  · simp only [callLinter, h.files, List.map_cons, List.map_nil]
  · obtain rfl := List.mem_singleton.1 hcall
    refine ⟨_, place, hword, hplace, fun location hp => ?_⟩
    rw [find?_removeBelow _ hplain.ne_nil, if_neg]
    intro hp'
    exact (List.prefix_or_prefix_of_prefix hp hp').elim hoff habove

section

variable [HashSeed]

/-- With one more document, of which no projection comes, the work in a cache gives the same
report but for that document. -/
theorem exists_inCache (hlinter : linter.Ignores f) (htree : cache.Confined place outer tree)
    (hempty : tree.EmptyAt place) (hholds : tree.HoldsFile f content)
    (houter : outer.PlainFile f content)
    (hm : Selection.MatchedAs tree cache.base request.patternTexts f file)
    (hbad : Cache.IsBad content)
    (h : (inCache request linter cache (tree.removeBelow f)).result = .ok report) :
    ∃ report' front back,
      (inCache request linter cache tree).result = .ok report' ∧
      Selection.ofPatterns (tree.removeBelow f) cache.base request.patternTexts =
        .ok (front ++ back) ∧
      Selection.ofPatterns tree cache.base request.patternTexts = .ok (front ++ file :: back) ∧
      report.WithDocument (Cache.projectContent content).result front file back report' ∧
      Outcome.Without f (inCache request linter cache (tree.removeBelow f))
        (inCache request linter cache tree) := by
  have hplain := hholds.plainFile
  cases hdocuments : Selection.ofPatterns (tree.removeBelow f) cache.base request.patternTexts with
  | error fault =>
      simp only [inCache, hdocuments] at h
      cases h
  | ok documents =>
      obtain ⟨front, back, rfl, hselected⟩ := hplain.exists_ofPatterns hholds.wellFormed
        hholds.properNames htree.base_isRead hm hdocuments
      cases hrun : Progress.takeAll cache request.reporting (front ++ back)
          (.start (tree.removeBelow f)) with
      | mk p stopped =>
          cases stopped with
          | some fault =>
              simp only [inCache, hdocuments, hrun] at h
              cases h
          | none =>
              have hothers : ∀ other ∈ front ++ back,
                  Selection.isRegular tree cache.base other = .ok true ∧
                    ¬ tree.Spells cache.base f other := by
                intro other ho
                have hregular := Selection.isRegular_of_mem hdocuments ho
                exact (hplain.isRegular_iff htree.base_isRead).1 hregular
              obtain ⟨p', hrun', hconfined, R, hR, hwithout, hplace⟩ :=
                Progress.exists_takeAll_insert htree hempty houter hothers
                  (hplain.read_of_spells hm.spells) hbad hrun
              have hprocessed := hR.processed_eq hwithout.report
              by_cases hzero : p.report.processed = 0
              · have hzero' : p'.report.processed = 0 := hprocessed.trans hzero
                simp only [inCache, hdocuments, hrun, hzero, if_true] at h ⊢
                simp only [hselected, hrun', hzero', if_true]
                cases h
                refine ⟨_, front, back, rfl, rfl, rfl, hplace _ _ hwithout.report rfl, ?_⟩
                exact ⟨hwithout.files, hwithout.printed, rfl, by simp⟩
              · have hzero' : ¬ p'.report.processed = 0 :=
                  fun h0 => hzero (hprocessed.symm.trans h0)
                simp only [inCache, hdocuments, hrun, hzero, if_false] at h ⊢
                simp only [hselected, hrun', hzero', if_false]
                obtain ⟨report', hreport, hkept, hfailed, hcall⟩ :=
                  exists_callLinter hlinter htree hholds houter hconfined hR hwithout h
                exact ⟨report', front, back, hreport, rfl, rfl, hplace _ _ hkept hfailed, hcall⟩

/-- The same of a run, which makes its cache and removes it. -/
theorem exists_lint {name : FileName} {files : FileTree} (hlinter : linter.Ignores f)
    (hholds : files.HoldsFile f content) (htemp : request.settings.tempDir.IsRead)
    (hbase : request.base.IsRead) (habs : request.base.isAbsolute = true)
    (hname : name.IsPlain) (hapart : files.IsApart f request.settings.tempDir)
    (hm : Selection.MatchedAs (creation request name files).2 request.base request.patternTexts f
      file)
    (hbad : Cache.IsBad content)
    (h : (lint request linter name (files.removeBelow f)).result = .ok report) :
    ∃ report' front back, (lint request linter name files).result = .ok report' ∧
      Selection.ofPatterns (creation request name (files.removeBelow f)).2 request.base
        request.patternTexts = .ok (front ++ back) ∧
      Selection.ofPatterns (creation request name files).2 request.base request.patternTexts =
        .ok (front ++ file :: back) ∧
      report.WithDocument (Cache.projectContent content).result front file back report' ∧
      Outcome.Without f (lint request linter name (files.removeBelow f))
        (lint request linter name files) := by
  have hcreate : creation request name (files.removeBelow f) =
      ((creation request name files).1, (creation request name files).2.removeBelow f) :=
    Cache.create_removeBelow_of_holdsFile hholds htemp hname hapart request.base
  cases hcreated : (creation request name files).1.result with
  | error fault =>
      rw [creation, creation] at hcreate
      rw [creation] at hcreated
      simp only [lint, hcreate, hcreated] at h
      cases h
  | ok cache =>
      have hcreated' : (creation request name (files.removeBelow f)).1.result = .ok cache := by
        rw [hcreate]
        exact hcreated
      have hfiles : (creation request name (files.removeBelow f)).2 =
          (creation request name files).2.removeBelow f := by rw [hcreate]
      obtain ⟨place, hconfined, hempty⟩ : ∃ place,
          cache.Confined place (files.ensurePath request.settings.tempDir).2
            (creation request name files).2 ∧ (creation request name files).2.EmptyAt place :=
        (Cache.confined_create hholds.wellFormed htemp hname hbase habs hcreated).2
      have hbaseEq : cache.base = request.base := by
        obtain ⟨rfl, -⟩ := Cache.create_eq_ok hcreated
        rfl
      have houter := (Cache.holdsFile_ensurePath hholds htemp hapart).plainFile
      have htree : (creation request name files).2.HoldsFile f content :=
        Cache.holdsFile_create hholds htemp hname hapart hcreated
      obtain ⟨hresult, hcalls, hprinted, hleft⟩ := lint_of_created linter hcreated
      obtain ⟨hresult', hcalls', hprinted', hleft'⟩ := lint_of_created linter hcreated'
      rw [hresult', hfiles] at h
      rw [← hbaseEq] at hm
      obtain ⟨report', front, back, hreport, hold, hnew, hplace, hwithout⟩ :=
        exists_inCache hlinter hconfined hempty htree houter hm hbad h
      have hroot : Avoids _ cache.root.text f :=
        (confined_inCache request linter hconfined).1.avoids_file houter (List.forall_mem_nil _)
          (List.prefix_append cache.root.names [])
      refine ⟨report', front, back, ?_, ?_, ?_, hplace, ?_⟩
      · rw [hresult]
        exact hreport
      · rw [hfiles, ← hbaseEq]
        exact hold
      · rw [← hbaseEq]
        exact hnew
      · constructor
        case files =>
          rw [hleft', hleft, hfiles, hwithout.files,
            Cache.remove_removeBelow_of_avoids hroot htree.plainFile.ne_nil]
        case printed => rw [hprinted', hprinted, hfiles, hwithout.printed]
        case calls => rw [hcalls', hcalls, hfiles, hwithout.calls]
        case handed =>
          rw [hcalls]
          exact hwithout.handed

/-- A bad document does not disturb the others. With a new file, matched under one spelling, that
is no text, whose block is not valid or in which nothing is to be linted, a run that gave a
report gives one again. The linter, which looks at no document outside of its directory, is
handed the same projections, and the reports differ in the new document only: it is skipped,
or it failed, at its place among the selected ones. -/
theorem lint_put_file {name : FileName} {before : FileTree} (hw : before.WellFormed)
    (hlinks : before.LinkFree []) (hp : before.ProperNames) (hroom : before.HasRoom f)
    (hlinter : linter.Ignores f) (htemp : request.settings.tempDir.IsRead)
    (hbase : request.base.IsRead) (habs : request.base.isAbsolute = true)
    (hname : name.IsPlain) (hapart : before.IsApart f request.settings.tempDir)
    (hm : Selection.MatchedAs (creation request name (before.put f (.file content))).2
      request.base request.patternTexts f file)
    (hbad : Cache.IsBad content) (h : (lint request linter name before).result = .ok report) :
    ∃ report' front back,
      (lint request linter name (before.put f (.file content))).result = .ok report' ∧
      Selection.ofPatterns (creation request name before).2 request.base
        request.patternTexts = .ok (front ++ back) ∧
      Selection.ofPatterns (creation request name (before.put f (.file content))).2 request.base
        request.patternTexts = .ok (front ++ file :: back) ∧
      report.WithDocument (Cache.projectContent content).result front file back report' ∧
      Outcome.Without f (lint request linter name before)
        (lint request linter name (before.put f (.file content))) := by
  have hholds := hroom.holdsFile hw hlinks hp content
  have hgone : (before.put f (.file content)).removeBelow f = before := by
    rw [removeBelow_put _ _ (List.prefix_refl _), removeBelow_of_find?_eq_none hw hroom.free]
  rw [← hgone] at h
  have hlint := exists_lint hlinter hholds htemp hbase habs hname
    (hapart.put hlinks hholds.plainFile.linkFree) hm hbad h
  rwa [hgone] at hlint

end

/-- A tree with a document `a` that has a title. -/
def titledTree : FileTree :=
  ⟨[([['w']], .directory),
    ([['w'], ['a']], .file (Utf8.encodeChars
      ['-', '-', '-', '\n', 't', 'i', 't', 'l', 'e', ':', ' ', 'b', '\n', '-', '-', '-']))], []⟩

def titledRequest : Request :=
  ⟨⟨"vale", none, ⟨.slash, [['c']]⟩, "*"⟩, [], none, false, ⟨.slash, [['w']]⟩, .plain⟩

open HashSeed

/-- With a file `b` of one byte that is no text, `a` is linted all the same. -/
theorem lint_put_file_undecodable :
    ∃ report, (lint titledRequest (fun _ _ => .exited 0 []) ['x']
        (titledTree.put [['w'], ['b']] (.file [0xFF]))).result = .ok report ∧
      report = ⟨0, [], 1, 0, [['b']], true⟩ := by
  have hlinks : titledTree.LinkFree [] := by
    intro location target _ hfind
    by_cases hne : location = []
    · rw [hne, find?_nil] at hfind
      cases hfind
    · simpa [titledTree] using mem_of_find?_eq_some hne hfind
  have hroom : titledTree.HasRoom [['w'], ['b']] :=
    ⟨⟨[['w']], ['b'], rfl, by decide +kernel, by decide +kernel⟩, by decide +kernel⟩
  have hapart : titledTree.IsApart [['w'], ['b']] titledRequest.settings.tempDir := by
    refine ⟨by decide +kernel, fun names hnames => ?_⟩
    rcases List.prefix_cons_iff.1 hnames with rfl | ⟨rest, rfl, hrest⟩
    · decide +kernel
    · rw [List.prefix_nil.1 hrest]
      decide +kernel
  have hmade : (creation titledRequest ['x'] (titledTree.put [['w'], ['b']] (.file [0xFF]))).2 =
      ((titledTree.put [['w'], ['b']] (.file [0xFF])).put [['c']] .directory).put [['c'], ['x']]
        .directory := by
    decide +kernel
  have hfound : Glob.matchesOf (creation titledRequest ['x']
      (titledTree.put [['w'], ['b']] (.file [0xFF]))).2 titledRequest.base.text ['*'] =
        .ok [['a'], ['b']] := Noted.eq_ok_of_toOption (by decide +kernel)
  have hm : Selection.MatchedAs (creation titledRequest ['x']
      (titledTree.put [['w'], ['b']] (.file [0xFF]))).2 titledRequest.base
        titledRequest.patternTexts [['w'], ['b']] ['b'] := by
    constructor
    case spells =>
      refine ⟨by decide +kernel, [0xFF], ?_⟩
      rw [hmade]
      rfl
    case matched => exact ⟨['*'], by decide +kernel, _, hfound, by decide⟩
    case unique =>
      intro pattern hpattern found hmatches x hx hdesignates
      obtain rfl : pattern = ['*'] := List.mem_singleton.1 hpattern
      rw [hfound] at hmatches
      cases hmatches
      simp only [List.mem_cons, List.not_mem_nil, or_false] at hx
      refine hx.resolve_left ?_
      rintro rfl
      obtain ⟨content, hl⟩ := hdesignates
      rw [hmade] at hl
      have hother : [['w'], ['b']] = [['w'], ['a']] := (Place.found.inj hl).1.symm
      cases hother
  have hlint : (lint titledRequest (fun _ _ => .exited 0 []) ['x'] titledTree).result =
      .ok ⟨0, [], 1, 0, [], true⟩ := Noted.eq_ok_of_toOption (by decide +kernel)
  have hignores : Linter.Ignores (fun _ _ => .exited 0 []) [['w'], ['b']] :=
    fun _ _ _ _ _ _ _ _ _ => rfl
  obtain ⟨report, front, back, hreport, -, -, hplace, -⟩ :=
    lint_put_file (by decide +kernel) hlinks (by decide +kernel) hroom hignores
      (by decide +kernel) (by decide +kernel) rfl (by decide +kernel) hapart hm
      (.inr ⟨_, rfl, rfl⟩) hlint
  obtain ⟨before, after, -, -, hfailed, rfl⟩ := hplace
  obtain ⟨rfl, rfl⟩ := List.append_eq_nil_iff.1 hfailed.symm
  exact ⟨_, hreport, rfl⟩

end Run

end FrontLint
