import FrontLint.Proofs.Cache.Mirror
import FrontLint.Proofs.Cache.Store

/-!
# What a projection leaves in a cache

Writing a projection leaves a file below the root under the names of the document, and the
directories above it, as far as their paths are taken. In a tree in which this is not in the
way of what is there already, nothing else changes, and the answer is the same as in any other
such tree.

## Implementation notes

Neither `Leaves` nor the answer speaks of the tree that is written to. So what several
documents leave is put together from what each of them leaves.
-/

namespace FrontLint

/-- The bytes that are written for a projection, none if its text cannot be encoded. -/
def Projection.writtenBytes (p : Projection) : Bytes := (Utf8.encode p.text).toOption.getD []

namespace FileTree

/-- A tree has below a place what another one has there and, besides, what is in a relation. -/
def GainsBelow (t : FileTree) (place : Location) (more : List FileName → Entry → Prop)
    (after : FileTree) : Prop :=
  ∀ names, names ≠ [] → ∀ entry, after.find? (place ++ names) = some entry ↔
    t.find? (place ++ names) = some entry ∨ more names entry

theorem locate_of_tooLong (t : FileTree) (last : Bool) {p : Path} (hr : p.IsRead)
    (h : ¬ Takes p.text) (hnul : ¬ p.text.contains '\x00' = true) :
    t.locate last p.text = .refused .nameTooLong := by
  rw [locate_text t last hr, if_pos]
  rw [← Nat.not_lt]
  exact fun hlt => h ⟨by simpa using hnul, hlt⟩

/-- A path that is not taken cannot be made. -/
theorem ensurePath_of_not_takes {p : Path} (hr : p.IsRead) (h : ¬ Takes p.text) :
    ∃ fault, ∀ t : FileTree, t.ensurePath p = (.error fault, t) := by
  by_cases hnul : p.text.contains '\x00' = true
  · refine ⟨.nulInPath, fun t => ?_⟩
    have hmake : t.makeDirectory p.text = .error .nulInPath := by rw [makeDirectory, if_pos hnul]
    rw [ensurePath_of_error hmake (by simp [FileFault.IsMissing]), excuse]
  · refine ⟨.refused .nameTooLong p.text, fun t => ?_⟩
    have hmake : t.makeDirectory p.text = .error (.refused .nameTooLong p.text) := by
      rw [makeDirectory, if_neg hnul, locate_of_tooLong t false hr h hnul]
    have hnot : t.isDirectory p.text = false := by
      rw [isDirectory, entryAt?, if_neg hnul, locate_of_tooLong t true hr h hnul]
    rw [ensurePath_of_error hmake (by simp [FileFault.IsMissing]), excuse, hnot]
    rfl

/-- Nothing is written to a path that is not taken. -/
theorem write_of_not_takes {p : Path} (hr : p.IsRead) (h : ¬ Takes p.text) :
    ∃ fault, ∀ (t : FileTree) (content : Bytes), t.write p.text content = .error fault := by
  by_cases hnul : p.text.contains '\x00' = true
  · exact ⟨.nulInPath, fun t content => by rw [write, if_pos hnul]⟩
  · refine ⟨.refused .nameTooLong p.text, fun t content => ?_⟩
    rw [write, if_neg hnul, locate_of_tooLong t true hr h hnul]

end FileTree

namespace Cache

open FileTree

variable {c : Cache} {place : Location} {outer t made after : FileTree} {source : Path}
  {p : Projection} {front : List FileName} {name : FileName}

/-! ## The steps of writing a projection -/

theorem write_of_ensurePath_error {fault : FileFault}
    (h : t.ensurePath (c.pathFor source).parent = (.error fault, made)) :
    c.write source p t =
      (.error (CacheFault.ofFile (.notWritten (c.pathFor source)) fault), made) := by
  simp only [write, h]

theorem write_of_write_error {fault : FileFault}
    (h : t.ensurePath (c.pathFor source).parent = (.ok (), made))
    (hw : ∀ content, made.write (c.pathFor source).text content = .error fault) :
    c.write source p t =
      (.error (CacheFault.ofFile (.notWritten (c.pathFor source)) fault), made) := by
  simp only [write, h, hw]
  split <;> rfl

/-- The answer when a file was written: its path, unless the text could not be encoded. -/
def written (c : Cache) (source : Path) (p : Projection) : Except Fault Path :=
  ((Utf8.encode p.text).mapError .encoding).map fun _ => c.pathFor source

theorem write_of_write_ok (h : t.ensurePath (c.pathFor source).parent = (.ok (), made))
    (hw : made.write (c.pathFor source).text p.writtenBytes = .ok after) :
    c.write source p t = (c.written source p, after) := by
  rw [Projection.writtenBytes] at hw
  rw [written]
  cases hencode : Utf8.encode p.text with
  | ok content =>
      rw [hencode] at hw
      have hw : made.write (c.pathFor source).text content = .ok after := hw
      simp only [write, h, hencode, hw]
      rfl
  | error fault =>
      rw [hencode] at hw
      have hw : made.write (c.pathFor source).text [] = .ok after := hw
      simp only [write, h, hencode, hw]
      rfl

/-! ## What is left below the root -/

/-- What a projection leaves below the root under names from there: directories above its
file, and the file. -/
inductive Leaves (c : Cache) (source : Path) (p : Projection) : List FileName → Entry → Prop
  | directory {names : List FileName} (hne : names ≠ [])
      (habove : IsAbove names (c.namesFor source))
      (htakes : Takes (c.pathFor source).parent.text) : Leaves c source p names .directory
  | file (hne : c.namesFor source ≠ []) (htakes : Takes (c.pathFor source).text) :
      Leaves c source p (c.namesFor source) (.file p.writtenBytes)

/-- A tree that is confined to the root of a cache, and in which what a projection leaves is not
in the way of what is there. -/
structure Admits (c : Cache) (place : Location) (outer t : FileTree) (source : Path)
    (p : Projection) : Prop where
  confined : c.Confined place outer t
  closedBelow : t.ClosedBelow place
  eq_of_leaves : ∀ names old new, t.find? (place ++ names) = some old →
    c.Leaves source p names new → old = new

theorem parent_pathFor (h : c.namesFor source = front ++ [name]) :
    (c.pathFor source).parent = c.root.behind front := by
  rw [pathFor_eq_behind, h, Path.parent_behind_concat]

theorem exists_namesFor_eq_concat (hne : c.namesFor source ≠ []) :
    ∃ front name, c.namesFor source = front ++ [name] :=
  ⟨_, _, (List.dropLast_append_getLast hne).symm⟩

theorem takes_parent (hne : c.namesFor source ≠ []) (h : Takes (c.pathFor source).text) :
    Takes (c.pathFor source).parent.text := by
  obtain ⟨front, name, hnames⟩ := exists_namesFor_eq_concat hne
  rw [parent_pathFor hnames]
  rw [pathFor_eq_behind, hnames, Path.behind_append] at h
  exact h.of_behind

theorem Leaves.ne_nil {names : List FileName} {entry : Entry}
    (h : c.Leaves source p names entry) : names ≠ [] := by
  cases h with
  | directory hne _ _ => exact hne
  | file hne _ => exact hne

/-- What stands above something that a projection leaves is a directory that it leaves. -/
theorem Leaves.above {names above : List FileName} {entry : Entry}
    (h : c.Leaves source p names entry) (hne : above ≠ []) (habove : IsAbove above names) :
    c.Leaves source p above .directory := by
  cases h with
  | directory _ hbelow htakes => exact .directory hne (habove.trans hbelow) htakes
  | file hnames htakes => exact .directory hne habove (takes_parent hnames htakes)

namespace Admits

/-- A tree that has what the projection leaves, and elsewhere what was there, has gained what
the projection leaves. -/
theorem gainsBelow (h : c.Admits place outer t source p)
    (hleaves : ∀ names new, c.Leaves source p names new →
      after.find? (place ++ names) = some new)
    (hkeeps : ∀ names, names ≠ [] → (∀ new, ¬ c.Leaves source p names new) →
      after.find? (place ++ names) = t.find? (place ++ names)) :
    t.GainsBelow place (c.Leaves source p) after := by
  intro names hne entry
  by_cases hnew : ∃ new, c.Leaves source p names new
  · obtain ⟨new, hnew⟩ := hnew
    rw [hleaves names new hnew]
    constructor
    · intro heq
      exact .inr (Option.some.inj heq ▸ hnew)
    · rintro (hold | hentry)
      · rw [h.eq_of_leaves names entry new hold hnew]
      · rw [← hleaves names new hnew, hleaves names entry hentry]
  · simp only [not_exists] at hnew
    rw [hkeeps names hne hnew]
    simp [hnew]

theorem reaches (h : c.Admits place outer t source p) (hs : source.IsRead)
    (hdown : ∀ name ∈ c.namesFor source, name.IsDownward)
    (hfront : front <+: c.namesFor source) (htakes : Takes (c.root.behind front).text) :
    t.Reaches c.root place front := by
  have hc := h.confined
  constructor
  case isRead => exact hc.isRead
  case namesDirectory => exact hc.namesDirectory
  case linkFree => exact hc.linkFree
  case closedBelow => exact h.closedBelow
  case isPlain =>
    intro name hname
    exact isPlain_of_mem_namesFor hc.base_isAbsolute hc.base_isRead hs (hfront.subset hname)
  case isDownward => exact fun name hname => hdown name (hfront.subset hname)
  case takes => exact htakes

/-- The directories above the file are made if their path is taken. -/
theorem exists_ensurePath (h : c.Admits place outer t source p) (hs : source.IsRead)
    (hdown : ∀ name ∈ c.namesFor source, name.IsDownward)
    (hnames : c.namesFor source = front ++ [name])
    (htakes : Takes (c.root.behind front).text) :
    ∃ made, t.ensurePath (c.pathFor source).parent = (.ok (), made) ∧
      Reaches.Ensured c.root place front t made := by
  have hparent := parent_pathFor hnames
  have hfront : front <+: c.namesFor source := hnames ▸ List.prefix_append _ _
  rw [hparent]
  refine (h.reaches hs hdown hfront htakes).exists_ensurePath fun above habove content hfile => ?_
  by_cases hnil : above = []
  · subst hnil
    rw [List.append_nil, h.confined.namesDirectory.isDirectory] at hfile
    cases hfile
  · have hdirectory : c.Leaves source p above .directory := by
      refine .directory hnil ?_ (hparent ▸ htakes)
      rw [hnames]
      exact isAbove_concat_iff.2 habove
    cases h.eq_of_leaves above _ _ hfile hdirectory

/-- Nothing is written over the root. -/
theorem write_of_names_nil (h : c.Admits place outer t source p) (hs : source.IsRead)
    (hnil : c.namesFor source = []) :
    c.write source p t = (.error (CacheFault.ofFile (.notWritten (c.pathFor source))
        (.refused .isDirectory (c.pathFor source).text)), t) ∧
      t.GainsBelow place (c.Leaves source p) t := by
  have hc := h.confined
  have hpath : c.pathFor source = c.root := by rw [pathFor_eq_behind, hnil, Path.behind_nil]
  have hreach : t.Reaches c.root place [] :=
    h.reaches hs (by simp [hnil]) List.nil_prefix (by rw [Path.behind_nil]; exact hc.takes)
  constructor
  · apply write_of_write_error
    · rw [hpath]
      exact hc.namesDirectory.ensurePath_parent hc.isRead hc.takes
    · intro content
      have hdirectory : t.find? (place ++ []) = some .directory := by
        rw [List.append_nil]
        exact hc.namesDirectory.isDirectory
      have hw := hreach.write_of_directory hdirectory content
      rwa [Path.behind_nil, ← hpath] at hw
  · refine h.gainsBelow (fun names new hl => ?_) fun _ _ _ => rfl
    cases hl with
    | directory hne habove _ =>
        rw [hnil] at habove
        exact absurd (List.prefix_nil.1 habove.1) hne
    | file hne _ => exact absurd hnil hne

/-- If not even the path of the directory is taken, nothing is made. -/
theorem gainsBelow_of_not_takes_parent (h : c.Admits place outer t source p)
    (htakes : ¬ Takes (c.pathFor source).parent.text) :
    t.GainsBelow place (c.Leaves source p) t := by
  refine h.gainsBelow (fun names new hl => ?_) fun _ _ _ => rfl
  cases hl with
  | directory _ _ ht => exact absurd ht htakes
  | file hne ht => exact absurd (takes_parent hne ht) htakes

/-- If the path of the file is not taken, only the directories are made. -/
theorem gainsBelow_of_not_takes (h : c.Admits place outer t source p)
    (hnames : c.namesFor source = front ++ [name])
    (hparent : Takes (c.pathFor source).parent.text) (htakes : ¬ Takes (c.pathFor source).text)
    (hmade : Reaches.Ensured c.root place front t made) :
    t.GainsBelow place (c.Leaves source p) made := by
  refine h.gainsBelow (fun names new hl => ?_) fun names hne hnew => ?_
  · cases hl with
    | directory _ habove _ =>
        rw [hnames, isAbove_concat_iff] at habove
        rw [hmade.find?, if_pos habove]
    | file _ ht => exact absurd ht htakes
  · rw [hmade.find?, if_neg]
    intro hfront
    refine hnew .directory (.directory hne ?_ hparent)
    rw [hnames]
    exact isAbove_concat_iff.2 hfront

/-- If the path of the file is taken, it is written in the directories made for it. -/
theorem write_of_takes (h : c.Admits place outer t source p) (hs : source.IsRead)
    (hdown : ∀ name ∈ c.namesFor source, name.IsDownward)
    (hnames : c.namesFor source = front ++ [name]) (htakes : Takes (c.pathFor source).text)
    (hens : t.ensurePath (c.pathFor source).parent = (.ok (), made))
    (hmade : Reaches.Ensured c.root place front t made) :
    (c.write source p t).1 = c.written source p ∧
      t.GainsBelow place (c.Leaves source p) (c.write source p t).2 := by
  have hne : c.namesFor source ≠ [] := by simp [hnames]
  have hfile : c.Leaves source p (c.namesFor source) (.file p.writtenBytes) := .file hne htakes
  have hreach : t.Reaches c.root place (front ++ [name]) := by
    rw [← hnames]
    exact h.reaches hs hdown (List.prefix_refl _) htakes
  have hwrite : made.write (c.pathFor source).text p.writtenBytes =
      .ok (made.put (place ++ (front ++ [name])) (.file p.writtenBytes)) := by
    rw [pathFor_eq_behind, hnames]
    refine (hmade.reaches hreach).write ?_ ?_ _
    · rw [hmade.find?, if_pos (List.prefix_refl _)]
    · rw [hmade.find?, if_neg (not_concat_isPrefix front name), ← hnames]
      intro hdirectory
      cases h.eq_of_leaves _ _ _ hdirectory hfile
  rw [write_of_write_ok hens hwrite]
  refine ⟨rfl, h.gainsBelow (fun names new hl => ?_) fun names hne hnew => ?_⟩
  · rw [Reaches.find?_put_below _ (by simp), hmade.find?]
    cases hl with
    | directory _ habove _ =>
        rw [hnames] at habove
        rw [if_neg habove.2, if_pos (isAbove_concat_iff.1 habove)]
    | file _ _ => rw [hnames, if_pos rfl]
  · rw [Reaches.find?_put_below _ (by simp), hmade.find?, if_neg, if_neg]
    · intro hfront
      refine hnew .directory (.directory hne ?_ (takes_parent (by simp [hnames]) htakes))
      rw [hnames]
      exact isAbove_concat_iff.2 hfront
    · rintro rfl
      rw [← hnames] at hnew
      exact hnew _ hfile

end Admits

/-- Writing a projection gives one answer in all trees that admit it, and they gain what the
projection leaves. -/
theorem exists_write_result (c : Cache) (place : Location) (outer : FileTree)
    (hpath : (c.pathFor source).IsRead) (hs : source.IsRead)
    (hdown : ∀ name ∈ c.namesFor source, name.IsDownward) (p : Projection) :
    ∃ result, ∀ t, c.Admits place outer t source p →
      (c.write source p t).1 = result ∧
        t.GainsBelow place (c.Leaves source p) (c.write source p t).2 := by
  by_cases hnil : c.namesFor source = []
  · refine ⟨.error (CacheFault.ofFile (.notWritten (c.pathFor source))
      (.refused .isDirectory (c.pathFor source).text)), fun t ht => ?_⟩
    obtain ⟨hwrite, hgains⟩ := ht.write_of_names_nil hs hnil
    rw [hwrite]
    exact ⟨rfl, hgains⟩
  · obtain ⟨front, name, hnames⟩ := exists_namesFor_eq_concat hnil
    have hparent := parent_pathFor hnames
    have hread : (c.pathFor source).parent.IsRead := fun other hother =>
      hpath other (List.dropLast_subset _ hother)
    by_cases hfront : Takes (c.pathFor source).parent.text
    · by_cases hlast : Takes (c.pathFor source).text
      · refine ⟨c.written source p, fun t ht => ?_⟩
        obtain ⟨made, hens, hmade⟩ := ht.exists_ensurePath hs hdown hnames (hparent ▸ hfront)
        exact ht.write_of_takes hs hdown hnames hlast hens hmade
      · obtain ⟨fault, hwrite⟩ := write_of_not_takes hpath hlast
        refine ⟨.error (CacheFault.ofFile (.notWritten (c.pathFor source)) fault), fun t ht => ?_⟩
        obtain ⟨made, hens, hmade⟩ := ht.exists_ensurePath hs hdown hnames (hparent ▸ hfront)
        rw [write_of_write_error hens (hwrite made)]
        exact ⟨rfl, ht.gainsBelow_of_not_takes hnames hfront hlast hmade⟩
    · obtain ⟨fault, hens⟩ := ensurePath_of_not_takes hread hfront
      refine ⟨.error (CacheFault.ofFile (.notWritten (c.pathFor source)) fault), fun t ht => ?_⟩
      rw [write_of_ensurePath_error (hens t)]
      exact ⟨rfl, ht.gainsBelow_of_not_takes_parent hfront⟩

end Cache

end FrontLint
