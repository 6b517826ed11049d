import FrontLint.Proofs.Files.Selection
import FrontLint.Proofs.Linter.Output
import FrontLint.Proofs.Linter.Reports
import FrontLint.Proofs.Projection.LinePreservation
import FrontLint.Proofs.Run.Progress
import FrontLint.Proofs.Run.Stages
import Mathlib.Data.List.Nodup

/-!
# Coordinates of a run's output

A run whose linter reports the files below the root has, in its output, one line for each
line of the projections that is not empty: the path of the document, the number of the line,
and the line. In the document that number is the line of the field.

## Implementation notes

Removing the root takes away every occurrence of it. A root that holds a colon can occur
across the path, the number and the text of a report, in none of which it occurs. So what is
assumed of the root is about reports.
-/

namespace FrontLint

section

variable [HashSeed]

/-- Each line of a projection that is not empty has the text of a field, and stands where
the document declares that field without indenting it. -/
def Projection.StandsIn (p : Projection) (document : Text) : Prop :=
  ∃ block index, (Block.ofLines? (splitLines document)).result = .ok (some block) ∧
    KeyIndex.ofLines? (splitLines document) block.opening block.closing = some index ∧
    ∀ (i : Nat) (line : Text), p.lines[i]? = some line → line ≠ [] →
      ∃ key text source, (key = titleField ∧ line = headingMark ++ text ∨
          key ∈ bodyFields ∧ line = text) ∧
        Slot block.fields index key i text ∧
        (splitLines document)[i]? = some source ∧
        (source.head?.map Code.isBlank).getD false = false ∧ key ++ [colon] <+: source

namespace Run

/-- A run in a normal absolute directory, on documents named by relative paths without two
dots and pairwise different, with a cache root that resolves to itself. -/
structure IsRelative (request : Request) (name : FileName) (before : FileTree) (cache : Cache)
    (documents : List (List Char)) : Prop where
  wellFormed : before.WellFormed
  tempDir_isRead : request.settings.tempDir.IsRead
  name_isPlain : name.IsPlain
  base_isRead : request.base.IsRead
  base_isAbsolute : request.base.isAbsolute = true
  base_normal : request.base.normal = request.base
  created : (creation request name before).1.result = .ok cache
  resolve_root : (creation request name before).2.resolve cache.root = cache.root
  selected : Selection.ofPatterns (creation request name before).2 request.base
    request.patternTexts = .ok documents
  relative : ∀ file ∈ documents, (Path.ofText file).isAbsolute = false ∧
    FileName.above ∉ (Path.ofText file).names
  distinct : (documents.map fun file => (Path.ofText file).normal).Nodup
  root_oneLine : '\n' ∉ cache.root.text ∧ '\r' ∉ cache.root.text
  documents_oneLine : ∀ file ∈ documents, '\n' ∉ file ∧ '\r' ∉ file
  projections_oneLine : ∀ file ∈ documents, ∀ p,
    (cache.project file (creation request name before).2).result = .ok (some p) →
      ∀ line ∈ p.lines, Code.char '\r' ∉ line

/-- The cache root does not occur in what a linter can report of the projections. -/
def RootIsApart (cache : Cache) (tree : FileTree) (documents : List (List Char)) : Prop :=
  ∀ file ∈ documents, ∀ p, (cache.project file tree).result = .ok (some p) →
    ∀ line ∈ p.reports (Path.ofText file).normal.text, ¬ cache.root.text ++ ['/'] <:+: line

/-- The cache root occurs in no path and no text of a projection. -/
def RootIsAbsent (cache : Cache) (tree : FileTree) (documents : List (List Char)) : Prop :=
  ∀ file ∈ documents, ¬ cache.root.text ++ ['/'] <:+: (Path.ofText file).normal.text ∧
    ∀ p, (cache.project file tree).result = .ok (some p) →
      ∀ line ∈ p.lines, ¬ cache.root.text ++ ['/'] <:+: line.toChars

end Run

/-- The output has one line for each line of a processed document's projection that is not
empty, in any order, and that line stands in the document. -/
structure Report.HasCoordinates (r : Report) (cache : Cache) (tree : FileTree)
    (documents : List (List Char)) : Prop where
  processed : (r.projected cache tree documents).length = r.processed
  output : ∃ lines, r.output.splitOn '\n' = lines ++ [[]] ∧
    lines.Perm ((r.projected cache tree documents).flatMap fun d =>
      d.2.reports (Path.ofText d.1).normal.text)
  standsIn : ∀ file p, (file, p) ∈ r.projected cache tree documents →
    ∃ text, tree.readText (cache.base.join (.ofText file)).text = .ok text ∧ p.StandsIn text

namespace Projection

variable {document : Text} {p : Projection}

theorem standsIn_of_ofText? (h : (ofText? document).result = .ok (some p)) :
    p.StandsIn document := by
  obtain ⟨closing, block, index, hblock, hindex, hp⟩ := preservesLines_of_ofText? h
  refine ⟨block, index, hblock, hindex, ?_⟩
  intro i line hline hne
  rcases (hp.filled_iff i line hne).1 hline with ⟨text, hslot, rfl⟩ | ⟨key, hbody⟩
  · obtain ⟨n, hn, -, -, source, hsource, hhead, hkey⟩ :=
      hp.declared titleField i text (.inl ⟨rfl, hslot⟩)
    obtain rfl : i = n := by exact_mod_cast hn
    exact ⟨titleField, text, source, .inl ⟨rfl, rfl⟩, hslot, hsource, hhead, hkey⟩
  · obtain ⟨n, hn, -, -, source, hsource, hhead, hkey⟩ := hp.declared key i line (.inr hbody)
    obtain rfl : i = n := by exact_mod_cast hn
    have hmem : key ∈ bodyFields := by
      rcases hbody.slot.2 with rfl | rfl <;> simp [bodyFields]
    exact ⟨key, line, source, .inr ⟨hmem, rfl⟩, hbody.slot.1, hsource, hhead, hkey⟩

end Projection

end

namespace Cache

variable [HashSeed] {c : Cache} {place : Location} {outer tree t : FileTree} {file : List Char}

theorem project_congr (h : t.readText (c.base.join (.ofText file)).text =
    tree.readText (c.base.join (.ofText file)).text) : c.project file t = c.project file tree := by
  rw [project, project, h]

/-- The projection of a selected document does not depend on what is below the root. -/
theorem project_eq_of_confined {base : Path} {patterns documents : List (List Char)}
    (hbase : c.base = base) (hc : Confined c place outer tree) (hempty : tree.EmptyAt place)
    (hselected : Selection.ofPatterns tree base patterns = .ok documents)
    (hfile : file ∈ documents) (ht : Confined c place outer t) :
    c.project file t = c.project file tree := by
  have hregular := Selection.isRegular_of_mem hselected hfile
  rw [Selection.isRegular, ← hbase] at hregular
  obtain ⟨content, hread⟩ := FileTree.exists_read_of_isFile hregular
  apply project_congr
  rw [FileTree.readText, FileTree.readText, hread,
    (hc.extends_of_emptyAt hempty ht).read hread]

theorem exists_text_of_project {p : Projection}
    (h : (c.project file tree).result = .ok (some p)) :
    ∃ text, tree.readText (c.base.join (.ofText file)).text = .ok text ∧
      (Projection.ofText? text).result = .ok (some p) := by
  rw [project, Noted.result_bind_eq_ok_iff] at h
  obtain ⟨text, htext, hp⟩ := h
  refine ⟨text, htext, ?_⟩
  rw [Noted.result_mapFault] at hp
  cases hr : (Projection.ofText? text).result with
  | error fault =>
      rw [hr] at hp
      cases hp
  | ok found =>
      rw [hr] at hp
      exact congrArg Except.ok (Except.ok.inj hp)

end Cache

namespace Run

variable {request : Request} {linter : Linter} {name : FileName} {before : FileTree}
  {cache : Cache} {documents : List (List Char)} {report : Report}

section

variable [HashSeed]

theorem IsRelative.base_eq (h : IsRelative request name before cache documents) :
    cache.base = request.base := by
  obtain ⟨rfl, -⟩ := Cache.create_eq_ok h.created
  rfl

/-- A run that gives a report with processed documents has called the linter after all of
them, and the linter has ended with an output. -/
theorem exists_ending_of_result (h : IsRelative request name before cache documents)
    (hr : (lint request linter name before).result = .ok report) (hpos : 0 < report.processed) :
    ∃ p status output, Progress.takeAll cache request.reporting documents
        (.start (creation request name before).2) = (p, none) ∧
      (linter (.lint request.settings.linter request.filter cache.root) p.files =
          .exited status output ∨
        linter (.lint request.settings.linter request.filter cache.root) p.files =
          .killed status output) ∧
      report = { p.report with
        status := report.status
        output := Output.relocate p.files cache.root (outputText output)
        linted := true } := by
  obtain ⟨cache', p, hprepares⟩ := exists_prepares_of_result hr
  obtain rfl : cache' = cache := Except.ok.inj (hprepares.created.symm.trans h.created)
  obtain ⟨others, hselected, htake⟩ := hprepares.exists_taken
  rw [h.base_eq] at hselected
  obtain rfl : others = documents := Except.ok.inj (hselected.symm.trans h.selected)
  obtain ⟨hskipped, hcalled⟩ := lint_of_prepares linter hprepares
  rcases Nat.eq_zero_or_pos p.report.processed with hzero | hsome
  · rw [(hskipped hzero).1] at hr
    obtain rfl := Except.ok.inj hr
    exact absurd hzero (Nat.pos_iff_ne_zero.1 hpos)
  · rw [(hcalled hsome).1] at hr
    obtain ⟨status, output, hends, rfl⟩ := complete_eq_ok_iff.1 hr
    rcases hends.exited_or_killed with hend | ⟨signal, hend, -⟩
    · exact ⟨p, status, output, htake, .inl hend, rfl⟩
    · exact ⟨p, signal, output, htake, .inr hend, rfl⟩

theorem IsRelative.normal_eq (h : IsRelative request name before cache documents)
    {file : List Char} (hfile : file ∈ documents) :
    (Path.ofText file).normal = ⟨.relative, (Path.ofText file).names⟩ := by
  obtain ⟨hrel, habove⟩ := h.relative file hfile
  have hanchor : (Path.ofText file).anchor = .relative := by
    simpa [Path.isAbsolute] using hrel
  rw [Path.normal, hanchor, Path.normalNames_of_not_mem _ habove]

theorem IsRelative.namesFor_eq (h : IsRelative request name before cache documents)
    {file : List Char} (hfile : file ∈ documents) :
    cache.namesFor (.ofText file) = (Path.ofText file).names := by
  obtain ⟨hrel, habove⟩ := h.relative file hfile
  exact Cache.namesFor_of_relative (h.base_eq ▸ h.base_isAbsolute) (h.base_eq ▸ h.base_normal)
    hrel habove

/-- All documents are projected to places of their own below the root. -/
theorem mirrors_of_takeAll (h : IsRelative request name before cache documents) {p : Progress}
    (ht : Progress.takeAll cache request.reporting documents
      (.start (creation request name before).2) = (p, none)) :
    ∃ place outer, cache.Confined place outer (creation request name before).2 ∧
      Progress.Mirrors cache place outer (creation request name before).2 documents p := by
  obtain ⟨-, place, hconfined, hempty⟩ := Cache.confined_create h.wellFormed h.tempDir_isRead
    h.name_isPlain h.base_isRead h.base_isAbsolute h.created
  have hnodup : (documents.map fun file => cache.namesFor (.ofText file)).Nodup := by
    have hmap : (documents.map fun file => cache.namesFor (.ofText file)) =
        (documents.map fun file => (Path.ofText file).normal).map Path.names := by
      rw [List.map_map]
      apply List.map_congr_left
      intro file hfile
      rw [Function.comp_apply, h.normal_eq hfile]
      exact h.namesFor_eq hfile
    rw [hmap]
    refine List.Nodup.map_on ?_ h.distinct
    intro a ha b hb hab
    obtain ⟨file, hfile, rfl⟩ := List.mem_map.1 ha
    obtain ⟨other, hother, rfl⟩ := List.mem_map.1 hb
    rw [h.normal_eq hfile, h.normal_eq hother] at hab ⊢
    rw [hab]
  refine ⟨place, _, hconfined, ?_⟩
  have hstart : Progress.Mirrors cache place
      (before.ensurePath request.settings.tempDir).2 (creation request name before).2 []
      (.start (creation request name before).2) := by
    constructor
    case confined => exact hconfined
    case filesBelow => exact hempty.filesBelow
    case processed => rfl
    case names_ne_nil => simp [Report.projected]
    case failed => simp [Progress.start, Report.empty]
  refine hstart.takeAll ?_ hnodup ht
  intro file hfile t hc
  exact congrArg _ (Cache.project_eq_of_confined h.base_eq hconfined hempty h.selected hfile hc)

end

/-- The characters of a report are those of its parts. -/
theorem not_mem_reports {p : Projection} {path report : List Char} {c : Char}
    (h : report ∈ p.reports path) (hpath : c ∉ path) (hlines : ∀ line ∈ p.lines, .char c ∉ line)
    (hdigit : c.isDigit = false) (hcolon : c ≠ ':') (hbad : c ≠ '\uFFFD') : c ∉ report := by
  obtain ⟨i, line, hline, -, rfl⟩ := Projection.mem_reports_iff.1 h
  have hnumber : c ∉ Nat.toDigits 10 (i + 1) := by
    intro hm
    have hd := Nat.isDigit_of_mem_toDigits (by decide) (by decide) hm
    rw [hdigit] at hd
    cases hd
  have htext : c ∉ line.toChars := by
    intro hm
    obtain ⟨code, hcode, hc⟩ := List.mem_map.1 hm
    cases code with
    | half offset => exact hbad hc.symm
    | char d =>
        obtain rfl : d = c := hc
        exact hlines line (List.mem_of_getElem? hline) hcode
  simp [reportStart, hpath, hnumber, htext, hcolon]

/-- What a linter has printed of the projections below the root, in its own order. -/
theorem exists_reports_of_perm {lines : List Bytes} {root : List Char}
    {found : List (List Char)}
    (h : lines.Perm (found.map fun report => Utf8.encodeChars (root ++ '/' :: report))) :
    ∃ reports : List (List Char), reports.Perm found ∧
      lines = reports.map fun report => Utf8.encodeChars (root ++ '/' :: report) := by
  -- decoding a line and dropping the root undoes what the linter does
  let read := fun line : Bytes => (Utf8.decodeLossy line).drop (root.length + 1)
  have hread : ∀ report, read (Utf8.encodeChars (root ++ '/' :: report)) = report := by
    intro report
    simp only [read, Utf8.decodeLossy_encodeChars]
    rw [List.append_cons, List.drop_left' (by simp)]
  refine ⟨lines.map read, ?_, ?_⟩
  · have hperm := h.map read
    rw [List.map_map] at hperm
    have hid : (read ∘ fun report => Utf8.encodeChars (root ++ '/' :: report)) = id := by
      funext report
      exact hread report
    rwa [hid, List.map_id] at hperm
  · rw [List.map_map]
    refine (List.map_id lines).symm.trans (List.map_congr_left ?_)
    intro line hline
    obtain ⟨report, -, rfl⟩ := List.mem_map.1 (h.mem_iff.1 hline)
    simp only [id, Function.comp, hread]

theorem flatMap_encodeChars (root : List Char) (reports : List (List Char)) :
    ((reports.map fun report => Utf8.encodeChars (root ++ '/' :: report)).flatMap
        fun line => line ++ [Utf8.lineFeedByte]) =
      Utf8.encodeChars (reports.flatMap fun line => root ++ ['/'] ++ line ++ ['\n']) := by
  induction reports with
  | nil => rfl
  | cons report rest ih =>
      have hline : Utf8.encodeChars (root ++ ['/'] ++ report ++ ['\n']) =
          Utf8.encodeChars (root ++ '/' :: report) ++ [Utf8.lineFeedByte] := by
        rw [Utf8.encodeChars_append, List.append_assoc, List.singleton_append,
          Utf8.encodeChars_cons '\n', Utf8.encodeChar_lineFeed]
        rfl
      rw [List.map_cons, List.flatMap_cons, ih, List.flatMap_cons,
        Utf8.encodeChars_append (root ++ ['/'] ++ report ++ ['\n']), hline]

/-- The linter's output as text, where no character is a carriage return. -/
theorem outputText_encodeChars {cs : List Char} (h : '\r' ∉ cs) :
    outputText (Utf8.encodeChars cs) = cs := by
  rw [outputText, Utf8.decodeLossy_encodeChars, unifyLineEnds_of_not_mem h]

/-! ## Projected documents -/

section projected

variable [HashSeed] {place : Location} {outer tree : FileTree} {p : Progress}
  {d : List Char × Projection}

theorem lines_of_mem_projected (hd : d ∈ report.projected cache tree documents) :
    d.2.lines ≠ [] ∧ ∀ line ∈ d.2.lines, lineFeed ∉ line := by
  obtain ⟨-, -, hproject⟩ := Report.mem_projected_iff.1 hd
  obtain ⟨text, -, htext⟩ := Cache.exists_text_of_project hproject
  obtain ⟨closing, block, index, -, -, hp⟩ := Projection.preservesLines_of_ofText? htext
  refine ⟨?_, hp.lineFeed_not_mem⟩
  intro hnil
  have hlen := hp.length_lines
  simp [hnil] at hlen

/-- Below the root a document has the path by which it is selected, normalised. -/
theorem IsRelative.slashed_eq (h : IsRelative request name before cache documents)
    (hmirrors : Progress.Mirrors cache place outer tree documents p)
    (hd : d ∈ p.report.projected cache tree documents) :
    slashed (cache.namesFor (.ofText d.1)) = (Path.ofText d.1).normal.text := by
  obtain ⟨hfile, -, -⟩ := Report.mem_projected_iff.1 hd
  have hne := hmirrors.names_ne_nil d hd
  rw [h.namesFor_eq hfile] at hne ⊢
  rw [h.normal_eq hfile, Path.text_relative hne]

/-- What a linter is bound to print of the files below the root are the reports of the projected
documents. -/
theorem IsRelative.flatMap_reportsOf (h : IsRelative request name before cache documents)
    (hmirrors : Progress.Mirrors cache place outer tree documents p) :
    (p.files.filesBelow place).flatMap (Linter.reportsOf cache.root.text) =
      ((p.report.projected cache tree documents).flatMap fun d =>
        d.2.reports (Path.ofText d.1).normal.text).map
          fun report => Utf8.encodeChars (cache.root.text ++ '/' :: report) := by
  rw [hmirrors.filesBelow, List.flatMap_map, List.map_flatMap]
  apply List.flatMap_congr
  intro d hd
  obtain ⟨hne, hfeed⟩ := lines_of_mem_projected hd
  rw [Cache.kept, Projection.reportsOf_encodeChars hne hfeed, h.slashed_eq hmirrors hd]

/-- What a linter that reports has printed of the projected documents. -/
theorem IsRelative.exists_printed (hlinter : Linter.Reports linter)
    (h : IsRelative request name before cache documents)
    (hmirrors : Progress.Mirrors cache place outer tree documents p) {status : Nat}
    {output : Bytes}
    (hend : linter (.lint request.settings.linter request.filter cache.root) p.files =
        .exited status output ∨
      linter (.lint request.settings.linter request.filter cache.root) p.files =
        .killed status output) :
    ∃ reports : List (List Char),
      reports.Perm ((p.report.projected cache tree documents).flatMap fun d =>
        d.2.reports (Path.ofText d.1).normal.text) ∧
      output = Utf8.encodeChars
        (reports.flatMap fun line => cache.root.text ++ ['/'] ++ line ++ ['\n']) := by
  have hword : (Command.lint request.settings.linter request.filter cache.root).arguments.getLast? =
      some cache.root.toString := by
    simp [Command.lint]
  have hroot : cache.root.toString.toList = cache.root.text := String.toList_ofList
  have hplace : p.files.locate true cache.root.toString.toList = .found place .directory := by
    rw [hroot]
    exact hmirrors.confined.namesDirectory.locate true hmirrors.confined.isRead
      hmirrors.confined.takes
  obtain ⟨lines, hperm, houtput⟩ := hlinter _ _ _ _ _ _ hword hplace hend
  rw [hroot, h.flatMap_reportsOf hmirrors] at hperm
  obtain ⟨reports, hreports, rfl⟩ := exists_reports_of_perm hperm
  exact ⟨reports, hreports, houtput.trans (flatMap_encodeChars _ reports)⟩

end projected

/-! ## Reports in the output -/

/-- A report is one line, and the root does not occur in it. -/
structure IsClean (cache : Cache) (report : List Char) : Prop where
  lineFeed_not_mem : '\n' ∉ report
  return_not_mem : '\r' ∉ report
  root_absent : ¬ cache.root.text ++ ['/'] <:+: report

theorem IsRelative.isClean [HashSeed] (h : IsRelative request name before cache documents)
    (hapart : RootIsApart cache (creation request name before).2 documents) {place : Location}
    {outer : FileTree} {p : Progress}
    (hmirrors : Progress.Mirrors cache place outer (creation request name before).2 documents p)
    {d : List Char × Projection} {line : List Char}
    (hd : d ∈ p.report.projected cache (creation request name before).2 documents)
    (hline : line ∈ d.2.reports (Path.ofText d.1).normal.text) : IsClean cache line := by
  obtain ⟨hfile, -, hproject⟩ := Report.mem_projected_iff.1 hd
  obtain ⟨hfeed, hreturn⟩ := h.documents_oneLine d.1 hfile
  -- a character of the path below the root is a slash or one of the document's path
  have hpath : ∀ c, c ≠ '/' → c ∉ d.1 → c ∉ (Path.ofText d.1).normal.text := by
    intro c hslash hc hm
    rw [← h.slashed_eq hmirrors hd, h.namesFor_eq hfile] at hm
    exact (mem_of_mem_slashed_ofText hm).elim hslash hc
  constructor
  case lineFeed_not_mem =>
    exact not_mem_reports hline (hpath _ (by decide) hfeed) (lines_of_mem_projected hd).2
      (by decide) (by decide) (by decide)
  case return_not_mem =>
    exact not_mem_reports hline (hpath _ (by decide) hreturn)
      (h.projections_oneLine d.1 hfile d.2 hproject) (by decide) (by decide) (by decide)
  case root_absent => exact hapart d.1 hfile d.2 hproject line hline

/-- Of clean reports below the root the rewritten output leaves the reports, line by line. -/
theorem relocate_outputText {files : FileTree} {reports : List (List Char)}
    (hresolve : files.resolve cache.root = cache.root)
    (hroot : '\n' ∉ cache.root.text ∧ '\r' ∉ cache.root.text)
    (hclean : ∀ line ∈ reports, IsClean cache line) :
    Output.relocate files cache.root (outputText (Utf8.encodeChars
        (reports.flatMap fun line => cache.root.text ++ ['/'] ++ line ++ ['\n']))) =
      reports.flatMap fun line => line ++ ['\n'] := by
  have hreturn : '\r' ∉ reports.flatMap fun line => cache.root.text ++ ['/'] ++ line ++ ['\n'] := by
    intro hm
    obtain ⟨line, hline, hm⟩ := List.mem_flatMap.1 hm
    simp [hroot.2, (hclean line hline).return_not_mem] at hm
  rw [outputText_encodeChars hreturn, Output.relocate_of_resolve_eq hresolve]
  refine Output.remove_flatMap (by simp) ?_ fun line hline => (hclean line hline).root_absent
  simp [hroot.1]

/-- In the output of a run stand the reports of its projections and nothing else, in the
coordinates of the documents. -/
theorem lint_hasCoordinates [HashSeed] (hlinter : Linter.Reports linter)
    (h : IsRelative request name before cache documents)
    (hapart : RootIsApart cache (creation request name before).2 documents)
    (hr : (lint request linter name before).result = .ok report) (hpos : 0 < report.processed) :
    report.HasCoordinates cache (creation request name before).2 documents := by
  obtain ⟨p, status, output, ht, hend, hreport⟩ := exists_ending_of_result h hr hpos
  obtain ⟨place, outer, hcreated, hmirrors⟩ := mirrors_of_takeAll h ht
  have hprojected : report.projected cache (creation request name before).2 documents =
      p.report.projected cache (creation request name before).2 documents :=
    Report.projected_congr fun file _ => by rw [hreport]
  obtain ⟨reports, hreports, rfl⟩ := h.exists_printed hlinter hmirrors hend
  have hclean : ∀ line ∈ reports, IsClean cache line := by
    intro line hline
    obtain ⟨d, hd, hline⟩ := List.mem_flatMap.1 (hreports.mem_iff.1 hline)
    exact h.isClean hapart hmirrors hd hline
  have hresolve : p.files.resolve cache.root = cache.root :=
    (hcreated.resolve_eq hmirrors.confined cache.root).trans h.resolve_root
  have hout : report.output = reports.flatMap fun line => line ++ ['\n'] := by
    rw [hreport]
    exact relocate_outputText hresolve h.root_oneLine hclean
  constructor
  case processed =>
    rw [hprojected, hreport]
    exact hmirrors.processed.symm
  case output =>
    refine ⟨reports, ?_, ?_⟩
    · rw [hout]
      exact splitOn_flatMap_lines fun line hline => (hclean line hline).lineFeed_not_mem
    · rw [hprojected]
      exact hreports
  case standsIn =>
    intro file q hq
    obtain ⟨text, hread, hp⟩ :=
      Cache.exists_text_of_project (Report.mem_projected_iff.1 hq).2.2
    exact ⟨text, hread, Projection.standsIn_of_ofText? hp⟩

theorem isInfix_of_not_mem_separator {text front back : List Char} {separator : Char}
    (h : text <:+: front ++ separator :: back) (hs : separator ∉ text) :
    text <:+: front ∨ text <:+: back := by
  obtain ⟨before, after, hcut⟩ := h
  rw [List.append_assoc] at hcut
  rcases List.append_eq_append_iff.1 hcut with ⟨middle, rfl, hmiddle⟩ | ⟨middle, rfl, hmiddle⟩
  · rcases List.append_eq_append_iff.1 hmiddle with ⟨tail, rfl, htail⟩ | ⟨tail, rfl, htail⟩
    · exact .inl ⟨before, tail, by simp⟩
    · cases tail with
      | nil => exact .inl ⟨before, [], by simp⟩
      | cons c tail =>
          obtain ⟨rfl, -⟩ := List.cons_eq_cons.1 htail
          simp at hs
  · cases middle with
    | nil =>
        cases text with
        | nil => exact .inl (List.nil_infix)
        | cons c text =>
            obtain ⟨rfl, -⟩ := List.cons_eq_cons.1 hmiddle
            simp at hs
    | cons c middle =>
        obtain ⟨rfl, rfl⟩ := List.cons_eq_cons.1 hmiddle
        exact .inr ⟨middle, after, by simp⟩

/-- A root without a colon that is absent from paths and texts is apart from the reports. -/
theorem RootIsAbsent.isApart [HashSeed] {tree : FileTree} (h : RootIsAbsent cache tree documents)
    (hcolon : ':' ∉ cache.root.text) : RootIsApart cache tree documents := by
  intro file hfile p hp report hreport hocc
  obtain ⟨hpath, htexts⟩ := h file hfile
  obtain ⟨i, line, hline, -, rfl⟩ := Projection.mem_reports_iff.1 hreport
  have hroot : ':' ∉ cache.root.text ++ ['/'] := by simp [hcolon]
  rw [reportStart, List.append_assoc] at hocc
  rcases isInfix_of_not_mem_separator hocc hroot with hocc | hocc
  · exact hpath hocc
  · rw [List.append_eq, List.append_assoc, List.singleton_append] at hocc
    rcases isInfix_of_not_mem_separator hocc hroot with hocc | hocc
    · -- a number has no slash
      have hslash : '/' ∈ Nat.toDigits 10 (i + 1) := hocc.subset (by simp)
      have hdigit := Nat.isDigit_of_mem_toDigits (by decide) (by decide) hslash
      exact absurd hdigit (by decide)
    · exact htexts p hp line (List.mem_of_getElem? hline) hocc

/-- A tree with the document `d/t`, which describes itself as `u/x/c`. -/
def describedTree : FileTree :=
  ⟨[([['w']], .directory), ([['w'], ['d']], .directory),
    ([['w'], ['d'], ['t']], .file (Utf8.encodeChars
      ['-', '-', '-', '\n', 'd', 'e', 's', 'c', 'r', 'i', 'p', 't', 'i', 'o', 'n', ':', ' ',
        'u', '/', 'x', '/', 'c', '\n', '-', '-', '-']))], []⟩

/-- A run on that document, with a directory for caches at the top of the tree. -/
def describedRequest (tempDir : FileName) : Request :=
  ⟨⟨"vale", none, ⟨.slash, [tempDir]⟩, "d/t"⟩, [], none, false, ⟨.slash, [['w']]⟩, .plain⟩

def describedCache (tempDir : FileName) : Cache :=
  ⟨⟨.slash, [tempDir, ['x']]⟩, ⟨.slash, [['w']]⟩⟩

def description : Text := Text.ofChars ['u', '/', 'x', '/', 'c']

/-- The assumptions on the run, from what a choice of the directory leaves to be evaluated. -/
theorem isRelative_described [HashSeed] {tempDir : FileName} (htemp : tempDir.IsRead)
    (hcreated : (creation (describedRequest tempDir) ['x'] describedTree).1.result =
      .ok (describedCache tempDir))
    (hresolve : (creation (describedRequest tempDir) ['x'] describedTree).2.resolve
      (describedCache tempDir).root = (describedCache tempDir).root)
    (hselected : Selection.ofPatterns (creation (describedRequest tempDir) ['x'] describedTree).2
      ⟨.slash, [['w']]⟩ (describedRequest tempDir).patternTexts = .ok [['d', '/', 't']])
    (hproject : ((describedCache tempDir).project ['d', '/', 't']
      (creation (describedRequest tempDir) ['x'] describedTree).2).result =
        .ok (some ⟨[[], description, [], []]⟩))
    (hroot : '\n' ∉ (describedCache tempDir).root.text ∧
      '\r' ∉ (describedCache tempDir).root.text) :
    IsRelative (describedRequest tempDir) ['x'] describedTree (describedCache tempDir)
      [['d', '/', 't']] := by
  constructor
  case wellFormed => decide
  case tempDir_isRead =>
    intro name hname
    obtain rfl := List.mem_singleton.1 hname
    exact htemp
  case name_isPlain => decide
  case base_isRead =>
    intro name hname
    obtain rfl := List.mem_singleton.1 hname
    decide
  case base_isAbsolute => rfl
  case base_normal => rfl
  case created => exact hcreated
  case resolve_root => exact hresolve
  case selected => exact hselected
  case relative => decide
  case distinct => decide
  case root_oneLine => exact hroot
  case documents_oneLine => decide
  case projections_oneLine =>
    intro file hfile p hp
    obtain rfl := List.mem_singleton.1 hfile
    rw [hproject] at hp
    cases hp
    decide

open HashSeed

/-- Under the root `/c/x` the description is reported on the second line of its document. -/
theorem hasCoordinates_described :
    ∃ report, (lint (describedRequest ['c']) (Linter.printing 0) ['x'] describedTree).result =
        .ok report ∧
      report.output = ['d', '/', 't', ':', '2', ':', 'u', '/', 'x', '/', 'c', '\n'] ∧
      report.HasCoordinates (describedCache ['c'])
        (creation (describedRequest ['c']) ['x'] describedTree).2 [['d', '/', 't']] := by
  have hproject : ((describedCache ['c']).project ['d', '/', 't']
      (creation (describedRequest ['c']) ['x'] describedTree).2).result =
        .ok (some ⟨[[], description, [], []]⟩) := Noted.eq_ok_of_toOption (by decide +kernel)
  have hrelative : IsRelative (describedRequest ['c']) ['x'] describedTree (describedCache ['c'])
      [['d', '/', 't']] :=
    isRelative_described (by decide) (Noted.eq_ok_of_toOption (by decide +kernel))
      (by decide +kernel) (Noted.eq_ok_of_toOption (by decide +kernel)) hproject (by decide)
  have hapart : RootIsApart (describedCache ['c'])
      (creation (describedRequest ['c']) ['x'] describedTree).2 [['d', '/', 't']] := by
    intro file hfile p hp
    obtain rfl := List.mem_singleton.1 hfile
    rw [hproject] at hp
    cases hp
    decide +kernel
  have hresult : (lint (describedRequest ['c']) (Linter.printing 0) ['x'] describedTree).result =
      .ok ⟨0, ['d', '/', 't', ':', '2', ':', 'u', '/', 'x', '/', 'c', '\n'], 1, 0, [], true⟩ :=
    Noted.eq_ok_of_toOption (by decide +kernel)
  exact ⟨_, hresult, rfl, lint_hasCoordinates (Linter.reports_printing 0) hrelative hapart hresult
    (by decide)⟩

/-- Under the root `/t:2:u/x` the same report is torn, though the root occurs neither in the
document's path nor in its description. -/
theorem not_hasCoordinates_colonRoot :
    Linter.Reports (Linter.printing 0) ∧
    IsRelative (describedRequest ['t', ':', '2', ':', 'u']) ['x'] describedTree
      (describedCache ['t', ':', '2', ':', 'u']) [['d', '/', 't']] ∧
    RootIsAbsent (describedCache ['t', ':', '2', ':', 'u'])
      (creation (describedRequest ['t', ':', '2', ':', 'u']) ['x'] describedTree).2
      [['d', '/', 't']] ∧
    ∃ report, (lint (describedRequest ['t', ':', '2', ':', 'u']) (Linter.printing 0) ['x']
        describedTree).result = .ok report ∧
      0 < report.processed ∧ report.output = ['d', 'c', '\n'] ∧
      ¬ report.HasCoordinates (describedCache ['t', ':', '2', ':', 'u'])
        (creation (describedRequest ['t', ':', '2', ':', 'u']) ['x'] describedTree).2
        [['d', '/', 't']] := by
  have hproject : ((describedCache ['t', ':', '2', ':', 'u']).project ['d', '/', 't']
      (creation (describedRequest ['t', ':', '2', ':', 'u']) ['x'] describedTree).2).result =
        .ok (some ⟨[[], description, [], []]⟩) := Noted.eq_ok_of_toOption (by decide +kernel)
  refine ⟨Linter.reports_printing 0, ?_, ?_, ?_⟩
  · exact isRelative_described (by decide) (Noted.eq_ok_of_toOption (by decide +kernel))
      (by decide +kernel) (Noted.eq_ok_of_toOption (by decide +kernel)) hproject (by decide)
  · intro file hfile
    obtain rfl := List.mem_singleton.1 hfile
    refine ⟨by decide +kernel, ?_⟩
    intro p hp
    rw [hproject] at hp
    cases hp
    decide +kernel
  · refine ⟨⟨0, ['d', 'c', '\n'], 1, 0, [], true⟩, Noted.eq_ok_of_toOption (by decide +kernel),
      by decide, rfl, ?_⟩
    intro h
    obtain ⟨lines, hsplit, hperm⟩ := h.output
    have hexpected : ((Report.projected ⟨0, ['d', 'c', '\n'], 1, 0, [], true⟩
        (describedCache ['t', ':', '2', ':', 'u'])
        (creation (describedRequest ['t', ':', '2', ':', 'u']) ['x'] describedTree).2
        [['d', '/', 't']]).flatMap fun d => d.2.reports (Path.ofText d.1).normal.text) =
        [['d', '/', 't', ':', '2', ':', 'u', '/', 'x', '/', 'c']] := by
      decide +kernel
    rw [hexpected, List.perm_singleton] at hperm
    rw [hperm] at hsplit
    exact absurd hsplit (by decide)

end Run

end FrontLint
