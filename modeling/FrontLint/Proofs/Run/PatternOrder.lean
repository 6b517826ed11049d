import FrontLint.Proofs.Files.Nested
import FrontLint.Proofs.Files.PathJoin
import FrontLint.Proofs.Run.Coordinates
import FrontLint.Proofs.Run.Together

/-!
# The order of patterns

Patterns in another order, or with other repetitions, select the same documents in another
order. Documents that are named from the base directory are apart: each has the place that its
names spell, and no file lies below another one. So the linter is called on the same files, and
the reports are the same but for the order of the failed documents.
-/

namespace FrontLint

/-- All matches of patterns are relative paths without two dots. -/
def Selection.MatchesBelow (t : FileTree) (base : Path) (patterns : List (List Char)) : Prop :=
  ∀ pattern ∈ patterns, ∀ found, Glob.matchesOf t base.text pattern = .ok found →
    ∀ file ∈ found, (Path.ofText file).isAbsolute = false ∧
      FileName.above ∉ (Path.ofText file).names

/-- Two calls of a linter with one command, on trees with the same entries. -/
def LinterCall.SameFiles (call call' : LinterCall) : Prop :=
  call.1 = call'.1 ∧ call.2.SameFiles call'.2

namespace Cache

open FileTree

variable {c : Cache} {place : Location} {outer tree : FileTree} {file other : List Char}
  {patterns documents : List (List Char)}

theorem join_eq_behind (h : (Path.ofText file).isAbsolute = false) :
    c.base.join (.ofText file) = c.base.behind (Path.ofText file).names := by
  rw [Path.join_of_relative _ (Path.anchor_of_isAbsolute_eq_false h)]
  rfl

theorem ofText_eq_of_relative (h : (Path.ofText file).isAbsolute = false)
    (h' : (Path.ofText other).isAbsolute = false)
    (hnames : (Path.ofText file).names = (Path.ofText other).names) :
    Path.ofText file = Path.ofText other := by
  have hanchor := (Path.anchor_of_isAbsolute_eq_false h).trans
    (Path.anchor_of_isAbsolute_eq_false h').symm
  cases hp : Path.ofText file
  cases hq : Path.ofText other
  rw [hp, hq] at hanchor hnames
  simp only at hanchor hnames
  rw [hanchor, hnames]

/-- A document that is named from the base directory, and is a regular file there. -/
structure IsNamedFromBase (c : Cache) (tree : FileTree) (file : List Char) : Prop where
  isRelative : (Path.ofText file).isAbsolute = false
  namesFor_eq : c.namesFor (.ofText file) = (Path.ofText file).names
  isPlain : ∀ name ∈ (Path.ofText file).names, name.IsPlain
  isRead : (c.base.behind (Path.ofText file).names).IsRead
  isFile : tree.isFile (c.base.behind (Path.ofText file).names).text = .ok true

theorem isNamedFromBase_of_selected (hc : c.Confined place outer tree)
    (hnormal : c.base.normal = c.base)
    (hselected : Selection.ofPatterns tree c.base patterns = .ok documents)
    (hbelow : Selection.MatchesBelow tree c.base patterns) (hfile : file ∈ documents) :
    c.IsNamedFromBase tree file := by
  obtain ⟨-, pattern, hpattern, found, hfound, hmem⟩ :=
    (Selection.mem_ofPatterns_iff hselected).1 hfile
  obtain ⟨hrelative, habove⟩ := hbelow pattern hpattern found hfound file hmem
  have hnames := namesFor_of_relative hc.base_isAbsolute hnormal hrelative habove
  have hplain : ∀ name ∈ (Path.ofText file).names, name.IsPlain := by
    intro name hname
    rw [← hnames] at hname
    exact isPlain_of_mem_namesFor hc.base_isAbsolute hc.base_isRead (Path.isRead_ofText file) hname
  have hregular := Selection.isRegular_of_mem hselected hfile
  rw [Selection.isRegular, join_eq_behind hrelative] at hregular
  exact ⟨hrelative, hnames, hplain, Path.isRead_behind hc.base_isRead hplain, hregular⟩

namespace IsNamedFromBase

/-- No document is a directory above another one. -/
theorem not_isAbove (h : c.IsNamedFromBase tree file) (h' : c.IsNamedFromBase tree other) :
    ¬ IsAbove (c.namesFor (.ofText file)) (c.namesFor (.ofText other)) := by
  rintro ⟨⟨more, hmore⟩, hne⟩
  rw [h.namesFor_eq, h'.namesFor_eq] at hmore hne
  have hbehind := h'.isFile
  have hread := h'.isRead
  rw [← hmore, Path.behind_append] at hbehind hread
  rw [eq_nil_of_isFile_behind h.isRead hread h.isFile hbehind, List.append_nil] at hmore
  exact hne hmore

/-- Two spellings of one place give the same projection. -/
theorem project_congr [HashSeed] (h : c.IsNamedFromBase tree file)
    (h' : c.IsNamedFromBase tree other)
    (hplace : c.namesFor (.ofText file) = c.namesFor (.ofText other)) :
    c.project file tree = c.project other tree := by
  rw [h.namesFor_eq, h'.namesFor_eq] at hplace
  rw [project, project, ofText_eq_of_relative h.isRelative h'.isRelative hplace]

end IsNamedFromBase

/-- Selected documents that are named from the base directory are apart. -/
theorem areApart_of_selected [HashSeed] (hc : c.Confined place outer tree)
    (hempty : tree.EmptyAt place)
    (hnormal : c.base.normal = c.base)
    (hselected : Selection.ofPatterns tree c.base patterns = .ok documents)
    (hbelow : Selection.MatchesBelow tree c.base patterns) :
    c.AreApart place outer tree documents := by
  have hnamed : ∀ file ∈ documents, c.IsNamedFromBase tree file :=
    fun file hfile => isNamedFromBase_of_selected hc hnormal hselected hbelow hfile
  constructor
  case project_eq =>
    intro file hfile t ht
    exact project_eq_of_confined rfl hc hempty hselected hfile ht
  case isDownward =>
    intro file hfile name hname
    have h := hnamed file hfile
    rw [h.namesFor_eq] at hname
    exact isDownward_of_isFile h.isRead h.isFile (List.mem_append_right _ hname)
      (h.isPlain name hname)
  case eq_of_deposits =>
    rintro file hfile other hother names old new ⟨p, hp, hold⟩ ⟨q, hq, hnew⟩
    have h := hnamed file hfile
    have h' := hnamed other hother
    cases hold with
    | directory hne habove _ =>
        cases hnew with
        | directory _ _ _ => rfl
        | file _ _ => exact absurd habove (h'.not_isAbove h)
    | file hne _ =>
        generalize hplace : c.namesFor (.ofText file) = names at hnew
        cases hnew with
        | directory _ habove _ =>
            rw [← hplace] at habove
            exact absurd habove (h.not_isAbove h')
        | file _ _ =>
            rw [h.project_congr h' hplace, hq] at hp
            cases hp
            rfl

end Cache

theorem Request.mem_patternTexts_iff {request : Request} {patterns : List String}
    (h : ∀ pattern, pattern ∈ patterns ↔ pattern ∈ request.patterns) (text : List Char) :
    text ∈ ({ request with patterns := patterns } : Request).patternTexts ↔
      text ∈ request.patternTexts := by
  have hempty : patterns.isEmpty = request.patterns.isEmpty := by
    rw [Bool.eq_iff_iff, List.isEmpty_iff, List.isEmpty_iff, List.eq_nil_iff_forall_not_mem,
      List.eq_nil_iff_forall_not_mem]
    simp only [h]
  simp only [patternTexts, hempty]
  split
  · rfl
  · simp only [List.mem_map, h]

namespace Run

variable {request : Request} {linter : Linter} {name : FileName} {before : FileTree}
  {patterns : List String} {report report' : Report}

/-- The order of patterns and their repetitions make no difference: if a run gives a report with
each of two lists of the same patterns, the linter is called with one command on the same files,
and the reports are the same but for the order of the failed documents. -/
theorem lint_sameUpToOrder [HashSeed] (hw : before.WellFormed)
    (htemp : request.settings.tempDir.IsRead)
    (hname : name.IsPlain) (hbase : request.base.IsRead)
    (habs : request.base.isAbsolute = true) (hnormal : request.base.normal = request.base)
    (hsame : ∀ pattern, pattern ∈ patterns ↔ pattern ∈ request.patterns)
    (hbelow : Selection.MatchesBelow (creation request name before).2 request.base
      request.patternTexts)
    (h : (lint request linter name before).result = .ok report)
    (h' : (lint { request with patterns := patterns } linter name before).result = .ok report') :
    report.SameUpToOrder report' ∧
      List.Forall₂ LinterCall.SameFiles (lint request linter name before).calls
        (lint { request with patterns := patterns } linter name before).calls := by
  obtain ⟨cache, p, hprepares⟩ := exists_prepares_of_result h
  obtain ⟨cache', p', hprepares'⟩ := exists_prepares_of_result h'
  have hcreated := hprepares.created
  have hcreated' : (creation request name before).1.result = .ok cache' := hprepares'.created
  obtain rfl : cache' = cache := Except.ok.inj (hcreated'.symm.trans hcreated)
  obtain ⟨documents, hselected, htake⟩ := hprepares.exists_taken
  obtain ⟨documents', hselected', htake'⟩ := hprepares'.exists_taken
  obtain ⟨-, place, hconfined, hempty⟩ :=
    Cache.confined_create hw htemp hname hbase habs hcreated
  have hcache : cache'.base = request.base := by
    obtain ⟨rfl, -⟩ := Cache.create_eq_ok hcreated
    rfl
  have hperm := Selection.ofPatterns_perm (Request.mem_patternTexts_iff hsame) hselected hselected'
  have hapart := Cache.areApart_of_selected hconfined hempty (by rw [hcache, hnormal]) hselected
    (by rw [hcache]; exact hbelow)
  obtain ⟨hreport, hfiles⟩ := Progress.sameUpToOrder_takeAll hperm hconfined hempty hapart htake
    htake'
  obtain ⟨hskipped, hcalled⟩ := lint_of_prepares linter hprepares
  obtain ⟨hskipped', hcalled'⟩ := lint_of_prepares linter hprepares'
  rcases Nat.eq_zero_or_pos p.report.processed with hzero | hpos
  · obtain ⟨hresult, hcalls⟩ := hskipped hzero
    obtain ⟨hresult', hcalls'⟩ := hskipped' (hreport.processed ▸ hzero)
    rw [hresult] at h
    rw [hresult'] at h'
    obtain rfl := Except.ok.inj h
    obtain rfl := Except.ok.inj h'
    rw [hcalls, hcalls']
    exact ⟨hreport, .nil⟩
  · obtain ⟨hresult, hcalls⟩ := hcalled hpos
    obtain ⟨hresult', hcalls'⟩ := hcalled' (hreport.processed ▸ hpos)
    rw [hresult] at h
    rw [hresult'] at h'
    obtain ⟨status, output, -, rfl⟩ := complete_eq_ok_iff.1 h
    obtain ⟨status', output', -, rfl⟩ := complete_eq_ok_iff.1 h'
    rw [hcalls, hcalls']
    exact ⟨⟨hreport.processed, hreport.skipped, hreport.failed, rfl⟩,
      .cons ⟨rfl, hfiles⟩ .nil⟩

open HashSeed

/-- Three documents, of which one is processed, one fails and one is skipped, selected from the
last to the first one and some of them twice. -/
theorem lint_sameUpToOrder_mixed :
    (lint mixedRequest dyingLinter ['x'] mixedTree).result = .ok mixedReport ∧
      (lint { mixedRequest with patterns := ["c", "b", "c", "a", "b"] } dyingLinter ['x']
        mixedTree).result = .ok mixedReport ∧
      mixedReport.SameUpToOrder mixedReport ∧
      List.Forall₂ LinterCall.SameFiles (lint mixedRequest dyingLinter ['x'] mixedTree).calls
        (lint { mixedRequest with patterns := ["c", "b", "c", "a", "b"] } dyingLinter ['x']
          mixedTree).calls := by
  have h : (lint mixedRequest dyingLinter ['x'] mixedTree).result = .ok mixedReport :=
    Noted.eq_ok_of_toOption (by decide +kernel)
  have h' : (lint { mixedRequest with patterns := ["c", "b", "c", "a", "b"] } dyingLinter ['x']
      mixedTree).result = .ok mixedReport := Noted.eq_ok_of_toOption (by decide +kernel)
  have hmatches : ∀ pattern ∈ mixedRequest.patternTexts,
      (Glob.matchesOf (creation mixedRequest ['x'] mixedTree).2 mixedRequest.base.text
        pattern).toOption = some [pattern] := by decide +kernel
  have hbelow : Selection.MatchesBelow (creation mixedRequest ['x'] mixedTree).2
      mixedRequest.base mixedRequest.patternTexts := by
    intro pattern hpattern found hfound file hfile
    rw [Noted.eq_ok_of_toOption (hmatches pattern hpattern)] at hfound
    obtain rfl := Except.ok.inj hfound
    obtain rfl := List.mem_singleton.1 hfile
    revert file
    decide +kernel
  have hsame : ∀ pattern,
      pattern ∈ ["c", "b", "c", "a", "b"] ↔ pattern ∈ mixedRequest.patterns := by
    intro pattern
    simp only [mixedRequest, List.mem_cons, List.not_mem_nil, or_false]
    tauto
  exact ⟨h, h', lint_sameUpToOrder (by decide +kernel) (by decide +kernel) (by decide +kernel)
    (by decide +kernel) rfl (by decide +kernel) hsame hbelow h h'⟩

end Run

end FrontLint
