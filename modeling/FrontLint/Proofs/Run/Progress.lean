import FrontLint.Proofs.Cache.Mirror
import FrontLint.Proofs.Run.Take

/-!
# Progress of a run

After some documents the files below the root are the projections of those that were
processed, in their order. This holds as long as no two documents have the same place.

## Implementation notes

A document counts as processed if it has a projection and is not reported as failed. Its
projection is that on the tree in which the root was empty: the writes below the root leave
every file of that tree as it is.
-/

namespace FrontLint

/-- The documents that were processed, with their projections on a tree. -/
def Report.projected [HashSeed] (r : Report) (cache : Cache) (tree : FileTree)
    (documents : List (List Char)) : List (List Char × Projection) :=
  documents.filterMap fun file =>
    if file ∈ r.failed then none
    else
      match (cache.project file tree).result with
      | .ok (some p) => some (file, p)
      | _ => none

/-- The names and the bytes under which a document's projection is kept. -/
def Cache.kept (cache : Cache) (document : List Char × Projection) : List FileName × Bytes :=
  (cache.namesFor (.ofText document.1), Utf8.encodeChars document.2.text.toChars)

namespace Report

variable [HashSeed] {r : Report} {cache : Cache} {tree : FileTree} {documents : List (List Char)}

theorem mem_projected_iff {file : List Char} {p : Projection} :
    (file, p) ∈ r.projected cache tree documents ↔
      file ∈ documents ∧ file ∉ r.failed ∧
        (cache.project file tree).result = .ok (some p) := by
  rw [projected, List.mem_filterMap]
  constructor
  · rintro ⟨other, hother, h⟩
    split at h
    · cases h
    · rename_i hfailed
      split at h
      · rename_i hp
        cases h
        exact ⟨hother, hfailed, hp⟩
      · cases h
  · rintro ⟨hfile, hfailed, hp⟩
    refine ⟨file, hfile, ?_⟩
    rw [if_neg hfailed, hp]

theorem projected_append (documents more : List (List Char)) :
    r.projected cache tree (documents ++ more) =
      r.projected cache tree documents ++ r.projected cache tree more := by
  simp only [projected, List.filterMap_append]

/-- Which documents count as processed depends on the failed ones among them. -/
theorem projected_congr {r' : Report} (h : ∀ file ∈ documents, file ∈ r'.failed ↔ file ∈ r.failed) :
    r'.projected cache tree documents = r.projected cache tree documents := by
  rw [projected, projected]
  apply List.filterMap_congr
  intro file hfile
  simp only [h file hfile]

theorem projected_singleton_of_ok {file : List Char} {p : Projection} (hfailed : file ∉ r.failed)
    (h : (cache.project file tree).result = .ok (some p)) :
    r.projected cache tree [file] = [(file, p)] := by
  rw [projected, List.filterMap_cons, if_neg hfailed, h]
  rfl

theorem projected_singleton_eq_nil {file : List Char}
    (h : file ∈ r.failed ∨ (cache.project file tree).result = .ok none) :
    r.projected cache tree [file] = [] := by
  rcases h with hfailed | hnone
  · rw [projected, List.filterMap_cons, if_pos hfailed]
    rfl
  · rw [projected, List.filterMap_cons, hnone]
    split <;> simp_all

end Report

namespace Progress

variable [HashSeed] {cache : Cache} {console : Option Console} {p p' : Progress} {file : List Char}

/-- The three ways in which a run goes on after a document. -/
theorem take_eq_none (h : take cache console p file = (p', none)) :
    (∃ q target, (cache.project file p.files).result = .ok (some q) ∧
      (cache.write (.ofText file) q p.files).1 = .ok target ∧
      p'.files = (cache.write (.ofText file) q p.files).2 ∧
      p'.report = { p.report with processed := p.report.processed + 1 }) ∨
    ((cache.project file p.files).result = .ok none ∧ p'.files = p.files ∧
      p'.report = { p.report with skipped := p.report.skipped + 1 }) ∨
    ((p'.files = p.files ∨ p'.files = cache.prepared (.ofText file) p.files) ∧
      p'.report = { p.report with failed := p.report.failed ++ [file] }) := by
  rw [take, Cache.process] at h
  cases hp : (cache.project file p.files).result with
  | error fault =>
      simp only [hp] at h
      split at h
      · cases h
        exact .inr (.inr ⟨.inl rfl, rfl⟩)
      · cases h
  | ok found =>
      cases found with
      | none =>
          simp only [hp] at h
          cases h
          exact .inr (.inl ⟨rfl, rfl, rfl⟩)
      | some q =>
          simp only [hp] at h
          cases hw : (cache.write (.ofText file) q p.files).1 with
          | ok target =>
              simp only [hw, Except.map] at h
              have hfiles := congrArg (fun taken => taken.1.files) h
              have hreport := congrArg (fun taken => taken.1.report) h
              simp only [files_reportTo, report_reportTo] at hfiles hreport
              exact .inl ⟨q, target, rfl, hw, hfiles.symm, hreport.symm⟩
          | error fault =>
              simp only [hw, Except.map] at h
              split at h
              · rename_i hdoc
                cases h
                exact .inr (.inr ⟨.inr (Cache.write_eq_error hw hdoc), rfl⟩)
              · cases h

/-- The files below the root are the projections of the processed documents. -/
structure Mirrors (cache : Cache) (place : Location) (outer tree : FileTree)
    (done : List (List Char)) (p : Progress) : Prop where
  confined : cache.Confined place outer p.files
  filesBelow : p.files.filesBelow place =
    (p.report.projected cache tree done).map cache.kept
  processed : p.report.processed = (p.report.projected cache tree done).length
  names_ne_nil : ∀ document ∈ p.report.projected cache tree done,
    cache.namesFor (.ofText document.1) ≠ []
  failed : ∀ file ∈ p.report.failed, file ∈ done

section

variable {place : Location} {outer tree : FileTree} {done : List (List Char)}

/-- Making directories for a document adds no file. -/
theorem Mirrors.prepared (h : Mirrors cache place outer tree done p) (source : Path)
    (hs : source.IsRead) :
    cache.Confined place outer (cache.prepared source p.files) ∧
      (cache.prepared source p.files).filesBelow place = p.files.filesBelow place := by
  refine h.confined.prepared_keeps hs
    (P := fun t => t.filesBelow place = p.files.filesBelow place) rfl ?_
  intro t location ht hp hnone
  have hne : location ≠ [] := by
    rintro rfl
    exact hp.ne (List.prefix_nil.1 hp.isPrefix).symm
  rw [FileTree.filesBelow_put_directory hne hnone]
  exact ht

/-- A document that adds no projection leaves the files as they are. -/
theorem Mirrors.keep (h : Mirrors cache place outer tree done p)
    (hconfined : cache.Confined place outer p'.files)
    (hbelow : p'.files.filesBelow place = p.files.filesBelow place)
    (hlist : p'.report.projected cache tree (done ++ [file]) = p.report.projected cache tree done)
    (hprocessed : p'.report.processed = p.report.processed)
    (hfailed : ∀ other ∈ p'.report.failed, other ∈ p.report.failed ∨ other = file) :
    Mirrors cache place outer tree (done ++ [file]) p' := by
  constructor
  case confined => exact hconfined
  case filesBelow =>
    rw [hbelow, hlist]
    exact h.filesBelow
  case processed =>
    rw [hlist, hprocessed]
    exact h.processed
  case names_ne_nil =>
    rw [hlist]
    exact h.names_ne_nil
  case failed =>
    intro other hother
    rcases hfailed other hother with hother | rfl
    · exact List.mem_append_left _ (h.failed other hother)
    · exact List.mem_append_right _ List.mem_cons_self

/-- A document counted as skipped. -/
theorem Mirrors.skip (h : Mirrors cache place outer tree done p)
    (hproject : (cache.project file tree).result = .ok none) (hfiles : p'.files = p.files)
    (hreport : p'.report = { p.report with skipped := p.report.skipped + 1 }) :
    Mirrors cache place outer tree (done ++ [file]) p' := by
  refine h.keep (hfiles ▸ h.confined) (by rw [hfiles]) ?_ (by rw [hreport]) ?_
  · rw [Report.projected_append, Report.projected_singleton_eq_nil (.inr hproject), List.append_nil]
    exact Report.projected_congr fun other _ => by rw [hreport]
  · intro other hother
    rw [hreport] at hother
    exact .inl hother

/-- A document counted as failed, for which directories may have been made. -/
theorem Mirrors.fail (h : Mirrors cache place outer tree done p) (hnew : file ∉ done)
    (hfiles : p'.files = p.files ∨ p'.files = cache.prepared (.ofText file) p.files)
    (hreport : p'.report = { p.report with failed := p.report.failed ++ [file] }) :
    Mirrors cache place outer tree (done ++ [file]) p' := by
  have hmem : ∀ other, other ∈ p'.report.failed ↔ other ∈ p.report.failed ∨ other = file := by
    intro other
    rw [hreport]
    simp
  have hkeep : cache.Confined place outer p'.files ∧
      p'.files.filesBelow place = p.files.filesBelow place := by
    rcases hfiles with hfiles | hfiles
    · rw [hfiles]
      exact ⟨h.confined, rfl⟩
    · rw [hfiles]
      exact h.prepared (.ofText file) (Path.isRead_ofText file)
  refine h.keep hkeep.1 hkeep.2 ?_ (by rw [hreport]) fun other hother => (hmem other).1 hother
  rw [Report.projected_append,
    Report.projected_singleton_eq_nil (.inl ((hmem file).2 (.inr rfl))), List.append_nil]
  apply Report.projected_congr
  intro other hother
  rw [hmem]
  have hne : other ≠ file := by
    rintro rfl
    exact hnew hother
  simp [hne]

/-- No file stands where a document is put whose place is none of those before. -/
theorem Mirrors.find?_eq_none (h : Mirrors cache place outer tree done p) {entry : Entry}
    (hplace : ∀ other ∈ done, cache.namesFor (.ofText other) ≠ cache.namesFor (.ofText file))
    (hput : Cache.PutsBelow (cache.prepared (.ofText file) p.files) place
      (place ++ cache.namesFor (.ofText file)) entry) :
    (cache.prepared (.ofText file) p.files).find?
      (place ++ cache.namesFor (.ofText file)) = none := by
  have hne : place ++ cache.namesFor (.ofText file) ≠ [] := by
    intro hnil
    exact h.confined.namesDirectory.ne_nil (List.append_eq_nil_iff.1 hnil).1
  rcases hput.replaceable with hnone | ⟨content, hold⟩
  · exact hnone
  · have hmem := FileTree.mem_filesBelow hne hold
    rw [(h.prepared (.ofText file) (Path.isRead_ofText file)).2, h.filesBelow] at hmem
    obtain ⟨⟨other, r⟩, hother, hkept⟩ := List.mem_map.1 hmem
    have hdone := (Report.mem_projected_iff.1 hother).1
    exact absurd (congrArg Prod.fst hkept) (hplace other hdone)

/-- A document counted as processed. Its place is none of those before, so its file is a new
one. -/
theorem Mirrors.process (h : Mirrors cache place outer tree done p) {q : Projection}
    {target : Path} (hproject : (cache.project file tree).result = .ok (some q))
    (hnew : file ∉ done)
    (hplace : ∀ other ∈ done, cache.namesFor (.ofText other) ≠ cache.namesFor (.ofText file))
    (hwrite : (cache.write (.ofText file) q p.files).1 = .ok target)
    (hfiles : p'.files = (cache.write (.ofText file) q p.files).2)
    (hreport : p'.report = { p.report with processed := p.report.processed + 1 }) :
    Mirrors cache place outer tree (done ++ [file]) p' := by
  have hread := Path.isRead_ofText file
  obtain ⟨hconf, hbelow⟩ := h.prepared (.ofText file) hread
  obtain ⟨hput, hafter⟩ := h.confined.write_prepared hread (Cache.write_eq_ok hwrite)
  have hne : place ++ cache.namesFor (.ofText file) ≠ [] := by
    intro hnil
    exact h.confined.namesDirectory.ne_nil (List.append_eq_nil_iff.1 hnil).1
  have hlist : p'.report.projected cache tree (done ++ [file]) =
      p.report.projected cache tree done ++ [(file, q)] := by
    rw [Report.projected_append]
    congr 1
    · exact Report.projected_congr fun other _ => by rw [hreport]
    · refine Report.projected_singleton_of_ok ?_ hproject
      rw [hreport]
      exact fun hf => hnew (h.failed file hf)
  constructor
  case confined =>
    rw [hfiles]
    exact h.confined.cacheWrite hread q
  case filesBelow =>
    rw [hfiles, hafter, FileTree.filesBelow_put_file hne (h.find?_eq_none hplace hput)
      hput.isPrefix, hbelow, h.filesBelow, hlist, List.map_append, List.drop_left]
    rfl
  case processed =>
    rw [hlist, hreport, List.length_append, h.processed]
    rfl
  case names_ne_nil =>
    intro document hdocument
    rw [hlist] at hdocument
    rcases List.mem_append.1 hdocument with hdocument | hdocument
    · exact h.names_ne_nil document hdocument
    · obtain rfl := List.mem_singleton.1 hdocument
      intro hnil
      exact hput.ne (by rw [hnil, List.append_nil])
  case failed =>
    intro other hother
    rw [hreport] at hother
    exact List.mem_append_left _ (h.failed other hother)

/-- One more document. -/
theorem Mirrors.take (h : Mirrors cache place outer tree done p)
    (hproject : (cache.project file p.files).result = (cache.project file tree).result)
    (hnew : file ∉ done)
    (hplace : ∀ other ∈ done, cache.namesFor (.ofText other) ≠ cache.namesFor (.ofText file))
    (ht : Progress.take cache console p file = (p', none)) :
    Mirrors cache place outer tree (done ++ [file]) p' := by
  rcases take_eq_none ht with ⟨q, target, hq, hwrite, hfiles, hreport⟩ | ⟨hq, hfiles, hreport⟩ |
    ⟨hfiles, hreport⟩
  · exact h.process (hproject ▸ hq) hnew hplace hwrite hfiles hreport
  · exact h.skip (hproject ▸ hq) hfiles hreport
  · exact h.fail hnew hfiles hreport

/-- All documents, if their places are pairwise different and their projections do not
depend on what is written below the root. -/
theorem Mirrors.takeAll (h : Mirrors cache place outer tree done p) {documents : List (List Char)}
    (hproject : ∀ file ∈ documents, ∀ t, cache.Confined place outer t →
      (cache.project file t).result = (cache.project file tree).result)
    (hnodup : ((done ++ documents).map fun file => cache.namesFor (.ofText file)).Nodup)
    (ht : Progress.takeAll cache console documents p = (p', none)) :
    Mirrors cache place outer tree (done ++ documents) p' := by
  induction documents generalizing done p with
  | nil =>
      cases ht
      rw [List.append_nil]
      exact h
  | cons file rest ih =>
      have hsplit : done ++ file :: rest = (done ++ [file]) ++ rest := by simp
      have hplace : ∀ other ∈ done,
          cache.namesFor (.ofText other) ≠ cache.namesFor (.ofText file) := by
        intro other hother heq
        rw [List.map_append, List.nodup_append] at hnodup
        exact hnodup.2.2 _ (List.mem_map_of_mem hother) _
          (List.mem_map_of_mem (List.mem_cons_self (a := file))) heq
      have hnew : file ∉ done := fun hmem => hplace file hmem rfl
      obtain ⟨next, hnext, ht⟩ := Progress.takeAll_cons_eq_none_iff.1 ht
      have hstep := h.take (hproject file List.mem_cons_self p.files h.confined) hnew hplace hnext
      rw [hsplit] at hnodup ⊢
      exact ih hstep (fun other hother => hproject other (List.mem_cons_of_mem _ hother)) hnodup ht

end

end Progress

end FrontLint
