import FrontLint.Proofs.Cache.Place

/-!
# Confinement of a cache

While documents are projected, all that changes lies below the root. The invariant says so
by removal: without the root, the tree is the one from before the root was made.

## Implementation notes

The root's path may go through links and two dots, as the directory above it was chosen
freely. What keeps the writes together is that no link lies below the root, and that the
names behind the root are plain.
-/

namespace FrontLint

namespace Cache

/-- The root of a cache leads to a place without links, and without that place the tree is
an outer one. -/
structure Confined (c : Cache) (place : Location) (outer t : FileTree) : Prop where
  isRead : c.root.IsRead
  takes : FileTree.Takes c.root.text
  base_isRead : c.base.IsRead
  base_isAbsolute : c.base.isAbsolute = true
  namesDirectory : t.NamesDirectory c.root place
  linkFree : t.LinkFree place
  removeBelow_eq : t.removeBelow place = outer

/-- What a change may put below a place: no link, and nothing over a directory. -/
structure PutsBelow (t : FileTree) (place location : Location) (entry : Entry) : Prop where
  isPrefix : place <+: location
  ne : location ≠ place
  notLink : ∀ target, entry ≠ .link target
  replaceable : t.find? location = none ∨ ∃ content, t.find? location = some (.file content)

/-- The tree with the directory for a document's projection. -/
def prepared (c : Cache) (source : Path) (t : FileTree) : FileTree :=
  (t.ensurePath (c.pathFor source).parent).2

theorem write_cases (c : Cache) (source : Path) (p : Projection) (t : FileTree) :
    (c.write source p t).2 = c.prepared source t ∨
      ∃ content, (c.prepared source t).write (c.pathFor source).text content =
        .ok (c.write source p t).2 := by
  rw [write, prepared]
  split
  · rename_i he
    rw [he]
    exact .inl rfl
  · rename_i he
    rw [he]
    split
    · rename_i content _
      split
      · exact .inl rfl
      · rename_i hw
        exact .inr ⟨content, hw⟩
    · split
      · exact .inl rfl
      · rename_i hw
        exact .inr ⟨[], hw⟩

namespace Confined

variable {c : Cache} {place : Location} {outer t t' : FileTree}

theorem put (h : Confined c place outer t) {location : Location} {entry : Entry}
    (hp : PutsBelow t place location entry) : Confined c place outer (t.put location entry) := by
  have hne : location ≠ [] := by
    rintro rfl
    exact hp.ne (List.prefix_nil.1 hp.isPrefix).symm
  constructor
  case isRead => exact h.isRead
  case takes => exact h.takes
  case base_isRead => exact h.base_isRead
  case base_isAbsolute => exact h.base_isAbsolute
  case namesDirectory =>
    exact h.namesDirectory.mono (FileTree.current_put t location entry)
      (fun _ => FileTree.find?_put_of_replaceable hne hp.replaceable (by simp))
      (fun _ _ => FileTree.find?_put_of_replaceable hne hp.replaceable (by simp))
  case linkFree =>
    intro other target hother
    rw [FileTree.find?_put t hne]
    split
    · simpa using hp.notLink target
    · exact h.linkFree other target hother
  case removeBelow_eq =>
    rw [FileTree.removeBelow_put t entry hp.isPrefix]
    exact h.removeBelow_eq

theorem isRead_behind (h : Confined c place outer t) {names : List FileName}
    (hplain : ∀ name ∈ names, name.IsPlain) :
    (Path.mk c.root.anchor (c.root.names ++ names)).IsRead := by
  intro name hname
  rcases List.mem_append.1 hname with hname | hname
  · exact h.isRead name hname
  · exact (hplain name hname).isRead

theorem isRead_pathFor (h : Confined c place outer t) {source : Path} (hs : source.IsRead) :
    (c.pathFor source).IsRead :=
  h.isRead_behind fun _ => isPlain_of_mem_namesFor h.base_isAbsolute h.base_isRead hs

/-- A directory made on the way to a place behind the root lies below the root. -/
theorem makeDirectory (h : Confined c place outer t) {names front : List FileName}
    (hplain : ∀ name ∈ names, name.IsPlain) (hfront : front <+: c.root.names ++ names)
    (hm : t.makeDirectory (Path.mk c.root.anchor front).text = .ok t') :
    ∃ location, PutsBelow t place location .directory ∧ t.find? location = none ∧
      t' = t.put location .directory := by
  have hread : (Path.mk c.root.anchor front).IsRead := by
    intro name hname
    exact h.isRead_behind hplain name (hfront.subset hname)
  obtain ⟨directory, name, hfree, rfl⟩ := FileTree.makeDirectory_text hread hm
  have horigin : t.origin (Path.mk c.root.anchor front) = t.origin c.root := rfl
  rw [horigin] at hfree
  obtain ⟨left, hleads⟩ := h.namesDirectory.leads
  rcases List.prefix_or_prefix_of_prefix hfront (List.prefix_append c.root.names names) with
    hin | ⟨more, rfl⟩
  · -- up to the root all directories are there
    obtain ⟨tail, htail⟩ := hin
    obtain ⟨left', place', hlead⟩ := hleads.front htail.symm
    exact absurd hfree (hlead.follow_ne_free false directory name)
  · have hmore : more <+: names := (List.prefix_append_right_inj _).1 hfront
    have hne : more ≠ [] := by
      rintro rfl
      simp only [List.append_nil] at hfree
      exact hleads.follow_ne_free false directory name hfree
    have hat := FileTree.follow_isAt_of_namesDirectory h.namesDirectory h.linkFree
      (fun name hname => hplain name (hmore.subset hname))
      (Or.inl hne : more ≠ [] ∨ false = true)
    rw [hfree] at hat
    obtain ⟨hlocation, hnone⟩ := hat
    rw [hlocation]
    refine ⟨place ++ more, ⟨List.prefix_append _ _, ?_, by simp, .inl hnone⟩, hnone, rfl⟩
    simpa using hne

/-- A file written behind the root is put at the place that its names spell. -/
theorem write (h : Confined c place outer t) {names : List FileName} {content : Bytes}
    (hplain : ∀ name ∈ names, name.IsPlain)
    (hw : t.write (Path.mk c.root.anchor (c.root.names ++ names)).text content = .ok t') :
    PutsBelow t place (place ++ names) (.file content) ∧
      t' = t.put (place ++ names) (.file content) := by
  have hread := h.isRead_behind hplain
  have hat := FileTree.follow_isAt_of_namesDirectory h.namesDirectory h.linkFree hplain
    (Or.inr rfl : names ≠ [] ∨ true = true)
  obtain ⟨ht, location, rfl, hl⟩ := FileTree.write_eq_ok hw
  rw [FileTree.locate_text_of_takes t true hread ht] at hl
  have hdir : place ++ names = place → t.find? (place ++ names) = some .directory := by
    intro heq
    rw [heq]
    exact h.namesDirectory.isDirectory
  rcases hl with ⟨old, hl⟩ | ⟨directory, name, hl, rfl⟩
  · rw [show t.follow true FileTree.maxLinks (t.origin c.root) (c.root.names ++ names) =
      .found location (.file old) from hl] at hat
    obtain ⟨rfl, hold⟩ := hat
    refine ⟨⟨List.prefix_append _ _, fun heq => ?_, by simp, .inr ⟨old, hold⟩⟩, rfl⟩
    rw [hdir heq] at hold
    cases hold
  · rw [show t.follow true FileTree.maxLinks (t.origin c.root) (c.root.names ++ names) =
      .free directory name from hl] at hat
    obtain ⟨hlocation, hnone⟩ := hat
    rw [hlocation]
    refine ⟨⟨List.prefix_append _ _, fun heq => ?_, by simp, .inl hnone⟩, rfl⟩
    rw [hdir heq] at hnone
    cases hnone

/-- Making the directory of a document's place keeps what each directory below the root
keeps. -/
theorem prepared_keeps (h : Confined c place outer t) {source : Path} (hs : source.IsRead)
    {P : FileTree → Prop} (hP : P t)
    (hput : ∀ t location, P t → PutsBelow t place location .directory →
      t.find? location = none → P (t.put location .directory)) :
    Confined c place outer (c.prepared source t) ∧ P (c.prepared source t) := by
  have hplain : ∀ name ∈ c.namesFor source, name.IsPlain := fun name =>
    isPlain_of_mem_namesFor h.base_isAbsolute h.base_isRead hs
  have hall := FileTree.ensurePath_keeps (c.pathFor source).parent
    (P := fun t => Confined c place outer t ∧ P t) ?_ ⟨h, hP⟩
  · exact hall
  · rintro t t' front hfront ⟨hc, ht⟩ hm
    have hbelow : front <+: c.root.names ++ c.namesFor source :=
      hfront.trans (List.dropLast_prefix _)
    obtain ⟨location, hp, hnone, rfl⟩ := hc.makeDirectory hplain hbelow hm
    exact ⟨hc.put hp, hput t location ht hp hnone⟩

theorem prepared (h : Confined c place outer t) {source : Path} (hs : source.IsRead) :
    Confined c place outer (c.prepared source t) :=
  (h.prepared_keeps hs (P := fun _ => True) trivial fun _ _ _ _ _ => trivial).1

/-- A document's projection is put at its place in the directory made for it. -/
theorem write_prepared (h : Confined c place outer t) {source : Path} (hs : source.IsRead)
    {content : Bytes}
    (hw : (c.prepared source t).write (c.pathFor source).text content = .ok t') :
    PutsBelow (c.prepared source t) place (place ++ c.namesFor source) (.file content) ∧
      t' = (c.prepared source t).put (place ++ c.namesFor source) (.file content) :=
  (h.prepared hs).write
    (fun _ => isPlain_of_mem_namesFor h.base_isAbsolute h.base_isRead hs) hw

theorem cacheWrite (h : Confined c place outer t) {source : Path} (hs : source.IsRead)
    (p : Projection) : Confined c place outer (c.write source p t).2 := by
  rcases write_cases c source p t with heq | ⟨content, hw⟩
  · rw [heq]
    exact h.prepared hs
  · obtain ⟨hp, heq⟩ := h.write_prepared hs hw
    rw [heq]
    exact (h.prepared hs).put hp

theorem process [HashSeed] (h : Confined c place outer t) (file : List Char) :
    Confined c place outer (c.process file t).2 := by
  rw [Cache.process]
  split
  · exact h
  · exact h
  · exact h.cacheWrite (Path.isRead_ofText file) _

theorem isThere_root (h : Confined c place outer t) : t.isThere c.root.text = true := by
  rw [FileTree.isThere, FileTree.entryAt?, if_neg (by simpa using h.takes.nul_not_mem),
    h.namesDirectory.locate true h.isRead h.takes]
  rfl

theorem notes_remove (h : Confined c place outer t) :
    (c.remove t).1 = [.rootRemoved c.root.toString] := by
  rw [Cache.remove, if_pos h.isThere_root]

/-- Removing the root gives back the outer tree. -/
theorem remove (h : Confined c place outer t) : (c.remove t).2 = outer := by
  rw [Cache.remove, if_pos h.isThere_root]
  simp only [FileTree.removeDirectory, h.namesDirectory.locate false h.isRead h.takes]
  exact h.removeBelow_eq

end Confined

end Cache

end FrontLint
