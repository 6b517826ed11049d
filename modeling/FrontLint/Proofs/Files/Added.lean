import FrontLint.Proofs.Files.LinkFree
import FrontLint.Proofs.Files.PathJoin

/-!
# One more file

A tree without links, and the same tree without one of its files. A path that does not touch
the file leads to the same place in both. A path that does touch it leads to no directory in
either, so the two trees have the same directories, and a listing differs in the name of the
file only.
-/

namespace FrontLint

/-- A name that a file can have. -/
structure FileName.IsProper (name : FileName) : Prop where
  isPlain : name.IsPlain
  nul_not_mem : '\x00' ∉ name
  length_le : (Utf8.encodeChars name).length ≤ FileTree.maxNameBytes

instance (name : FileName) : Decidable name.IsProper :=
  decidable_of_iff (name.IsPlain ∧ '\x00' ∉ name ∧
      (Utf8.encodeChars name).length ≤ FileTree.maxNameBytes)
    ⟨fun h => ⟨h.1, h.2.1, h.2.2⟩, fun h => ⟨h.1, h.2, h.3⟩⟩

theorem FileName.IsProper.isDownward {name : FileName} (h : name.IsProper) : name.IsDownward :=
  ⟨h.isPlain.isRead.ne_here, h.isPlain.ne_above, h.length_le⟩

namespace FileTree

/-- A file of a tree without links. The current directory is not below it. -/
structure PlainFile (t : FileTree) (f : Location) (content : Bytes) : Prop where
  linkFree : t.LinkFree []
  isFile : t.find? f = some (.file content)
  current : ¬ f <+: t.current

/-- A location in a directory at which there is nothing, under a name that a file can have. -/
structure HasRoom (t : FileTree) (f : Location) : Prop where
  exists_parent : ∃ parent name, f = parent ++ [name] ∧ name.IsProper ∧
    t.find? parent = some .directory
  free : t.find? f = none

/-- Following a path looks at a location. -/
def Touches (t : FileTree) (f : Location) (path : List Char) : Prop :=
  t.Consults maxLinks (startOf t.current path) (stepsOf path) f

/-- The names of a path lead to a file, be the path too long to be followed. -/
def Designates (t : FileTree) (f : Location) (path : List Char) : Prop :=
  ∃ content, t.follow true maxLinks (t.origin (.ofText path)) (Path.ofText path).names =
    .found f (.file content)

def ProperNames (t : FileTree) : Prop :=
  ∀ e ∈ t.entries, ∀ name ∈ e.1, name.IsProper

instance (t : FileTree) : Decidable t.ProperNames :=
  inferInstanceAs (Decidable (∀ e ∈ t.entries, ∀ name ∈ e.1, FileName.IsProper name))

theorem filter_stepsOf (path : List Char) :
    (stepsOf path).filter (· ≠ FileName.here) = (Path.ofText path).names := by
  have hend : (if path.getLast? = some '/' then [FileName.here] else []).filter
      (· ≠ FileName.here) = [] := by
    split <;> simp
  rw [stepsOf, List.filter_append, hend, List.append_nil, Path.ofText, List.filter_filter]
  apply List.filter_congr
  intro name _
  by_cases hempty : name = []
  · simp [Path.isName, hempty]
  · by_cases hh : name = FileName.here <;> simp [Path.isName, hempty, hh]

theorem startOf_eq_origin (t : FileTree) (path : List Char) :
    startOf t.current path = t.origin (.ofText path) := by
  rw [startOf, origin]
  simp only [Path.isAbsolute_ofText_iff]

theorem mem_namesIn_iff {t : FileTree} {directory : Location} {name : FileName} :
    name ∈ t.namesIn directory ↔ ∃ e ∈ t.entries, e.1 = directory ++ [name] := by
  simp only [namesIn, List.mem_filterMap]
  apply exists_congr
  intro e
  apply and_congr_right
  intro _
  constructor
  · intro h
    split at h
    · rename_i hd
      obtain ⟨front, hfront⟩ := List.getLast?_eq_some_iff.1 h
      rw [hfront, List.dropLast_concat] at hd
      rw [hfront, hd]
    · cases h
  · intro h
    rw [h, List.dropLast_concat, if_pos rfl, List.getLast?_concat]

theorem ProperNames.of_mem_namesIn {t : FileTree} (h : t.ProperNames) {directory : Location}
    {name : FileName} (hn : name ∈ t.namesIn directory) : name.IsProper := by
  obtain ⟨e, he, heq⟩ := mem_namesIn_iff.1 hn
  exact h e he name (by simp [heq])

theorem ProperNames.put {t : FileTree} (h : t.ProperNames) {directory : Location}
    {name : FileName} (hd : t.find? directory = some .directory) (hn : name.IsProper)
    (entry : Entry) : (t.put (directory ++ [name]) entry).ProperNames := by
  intro e he other hother
  rcases mem_put he with rfl | he
  · rcases List.mem_append.1 hother with hother | hother
    · have hdirectory : directory ≠ [] := by
        rintro rfl
        cases hother
      exact h _ (mem_of_find?_eq_some hdirectory hd) other hother
    · rw [List.mem_singleton.1 hother]
      exact hn
  · exact h e he other hother

theorem LinkFree.put {t : FileTree} (h : t.LinkFree []) {location : Location}
    (hne : location ≠ []) {entry : Entry} (hentry : ∀ target, entry ≠ .link target) :
    (t.put location entry).LinkFree [] := by
  intro other target _
  rw [find?_put t hne]
  split
  · simpa using hentry target
  · exact h.find?_ne_link other target

theorem touches_iff {t : FileTree} (h : t.LinkFree []) {f : Location} {path : List Char} :
    t.Touches f path ↔
      t.Consults maxLinks (t.origin (.ofText path)) (Path.ofText path).names f := by
  rw [Touches, startOf_eq_origin, ← filter_stepsOf, consults_filter_here h]

namespace PlainFile

variable {t : FileTree} {f : Location} {content : Bytes} {path : List Char}

theorem ne_nil (h : t.PlainFile f content) : f ≠ [] := by
  rintro rfl
  have hfile := h.isFile
  rw [find?_nil] at hfile
  cases hfile

theorem not_isPrefix_startOf (h : t.PlainFile f content) (path : List Char) :
    ¬ f <+: startOf t.current path := by
  rw [startOf]
  split
  · exact fun hp => h.ne_nil (List.prefix_nil.1 hp)
  · exact h.current

theorem avoids (h : t.PlainFile f content) (ht : ¬ t.Touches f path) : t.Avoids path f := by
  intro location hc hp
  have heq := hc.eq_of_isPrefix h.linkFree h.isFile (h.not_isPrefix_startOf path) hp
  exact ht (heq ▸ hc)

theorem locate_of_touches (h : t.PlainFile f content) (ht : t.Touches f path) (last : Bool) :
    t.locate last path = .found f (.file content) ∨
      ∃ cause, t.locate last path = .refused cause := by
  rw [locate]
  split
  · exact .inr ⟨_, rfl⟩
  · split
    · exact .inr ⟨_, rfl⟩
    · exact (ht.follow_file h.linkFree h.isFile last).imp_right fun hr => ⟨_, hr⟩

theorem locate_removeBelow_of_touches (h : t.PlainFile f content) (ht : t.Touches f path)
    (last : Bool) (location : Location) (entry : Entry) :
    (t.removeBelow f).locate last path ≠ .found location entry := by
  rw [locate]
  split
  · simp
  · split
    · simp
    · rcases ht.follow_removeBelow h.linkFree h.isFile h.ne_nil (h.not_isPrefix_startOf path)
        last with hl | ⟨parent, name, hl⟩ <;> simp [hl]

theorem entryAt?_removeBelow_of_touches (h : t.PlainFile f content) (ht : t.Touches f path)
    (last : Bool) : (t.removeBelow f).entryAt? last path = none := by
  rw [entryAt?]
  split
  · rfl
  · split
    · rename_i location entry hl
      exact absurd hl (h.locate_removeBelow_of_touches ht last location entry)
    · rfl

/-- With and without the file there are the same directories. -/
theorem isDirectory_removeBelow (h : t.PlainFile f content) (path : List Char) :
    (t.removeBelow f).isDirectory path = t.isDirectory path := by
  by_cases ht : t.Touches f path
  · have hwith : t.isDirectory path = false := by
      rw [isDirectory, entryAt?]
      rcases h.locate_of_touches ht true with hl | ⟨cause, hl⟩ <;>
      · rw [hl]
        split <;> simp_all
    rw [hwith, isDirectory, h.entryAt?_removeBelow_of_touches ht]
  · exact FileTree.isDirectory_removeBelow (h.avoids ht) h.ne_nil

/-- What has a path without the file has it with the file. A path that is new touches the
file. -/
theorem isNamed_iff (h : t.PlainFile f content) (path : List Char) :
    (t.removeBelow f).isNamed path = true ↔ t.isNamed path = true ∧ ¬ t.Touches f path := by
  by_cases ht : t.Touches f path
  · rw [isNamed, h.entryAt?_removeBelow_of_touches ht]
    simp [ht]
  · rw [isNamed, isNamed, entryAt?_removeBelow (h.avoids ht) h.ne_nil]
    simp [ht]

theorem nul_not_mem_of_isNamed (h : t.isNamed path = true) : '\x00' ∉ path := by
  intro hnul
  rw [isNamed, entryAt?, if_pos (by simpa using hnul)] at h
  cases h

/-! ## Paths that designate the file -/

theorem designates_congr {other : List Char} (heq : Path.ofText path = .ofText other) :
    t.Designates f path ↔ t.Designates f other := by
  rw [Designates, Designates, heq]

theorem touches_of_designates (h : t.PlainFile f content) (hd : t.Designates f path) :
    t.Touches f path := by
  obtain ⟨old, hfollow⟩ := hd
  have hwritable : (t.follow true maxLinks (t.origin (.ofText path))
      (Path.ofText path).names).IsWritable f := by
    rw [hfollow]
    exact rfl
  exact (touches_iff h.linkFree).2 (consults_of_isWritable hwritable).1

theorem designates_of_locate (h : t.LinkFree []) {last : Bool}
    (hl : t.locate last path = .found f (.file content)) : t.Designates f path := by
  have hfollow : t.follow last maxLinks (startOf t.current path) (stepsOf path) =
      .found f (.file content) := by
    rw [locate] at hl
    split at hl
    · cases hl
    · split at hl
      · cases hl
      · exact hl
  refine ⟨content, ?_⟩
  rw [← filter_stepsOf, ← startOf_eq_origin]
  exact follow_filter_here h hfollow true

/-- What has a path that touches the file is the file. -/
theorem designates_of_isNamed (h : t.PlainFile f content) (ht : t.Touches f path)
    (hnamed : t.isNamed path = true) : t.Designates f path := by
  rcases h.locate_of_touches ht false with hl | ⟨cause, hl⟩
  · exact designates_of_locate h.linkFree hl
  · rw [isNamed, entryAt?, hl] at hnamed
    split at hnamed <;> cases hnamed

/-- Whether a path leads to a file is the same without a file that the path does not designate. -/
theorem isFile_removeBelow (h : t.PlainFile f content) {p : Path} (hr : p.IsRead)
    (hd : ¬ t.Designates f p.text) : (t.removeBelow f).isFile p.text = t.isFile p.text := by
  by_cases ht : t.Touches f p.text
  · have hc : t.Consults maxLinks (t.origin p) p.names f := by
      have htouches := (touches_iff h.linkFree).1 ht
      rwa [Path.ofText_text hr] at htouches
    have hstart := h.not_isPrefix_startOf p.text
    rw [startOf_text t hr] at hstart
    have hwith : t.follow true maxLinks (t.origin p) p.names = .refused .notDirectory := by
      refine (hc.follow_file h.linkFree h.isFile true).resolve_left fun hl => hd ⟨content, ?_⟩
      rw [Path.ofText_text hr]
      exact hl
    have horigin : (t.removeBelow f).origin p = t.origin p := rfl
    rw [FileTree.isFile, FileTree.isFile, locate_text _ _ hr, locate_text _ _ hr, horigin, hwith]
    by_cases hlong : pathBytesBound ≤ (Utf8.encodeChars p.text).length
    · rw [if_pos hlong, if_pos hlong]
    · rw [if_neg hlong, if_neg hlong]
      rcases hc.follow_removeBelow h.linkFree h.isFile h.ne_nil hstart true with
        hl | ⟨parent, name, hl⟩ <;>
      · rw [hl]
        rfl
  · rw [FileTree.isFile, FileTree.isFile, locate_removeBelow (h.avoids ht) h.ne_nil]

/-! ## Listings -/

/-- A longer path touches the file if a front part of it does. -/
theorem touches_of_join (h : t.PlainFile f content) (ht : t.Touches f path)
    {name longer : List Char} (hname : name.head? ≠ some '/')
    (hlonger : Path.ofText longer = (Path.ofText path).join (.ofText name)) :
    t.Touches f longer := by
  have hrelative : (Path.ofText name).anchor = .relative :=
    Anchor.ofText_eq_relative_iff.2 hname
  rw [touches_iff h.linkFree] at ht ⊢
  rw [hlonger, Path.join_of_relative _ hrelative]
  exact ht.append _

/-- The path of the file's name in its directory designates the file. -/
theorem designates_within (h : t.PlainFile f content) {parent : Location} {name : FileName}
    (hf : f = parent ++ [name]) (hn : name.IsProper)
    (hl : t.locate true path = .found parent .directory) :
    t.Designates f (Glob.within path name) := by
  have hfollow : t.follow true maxLinks (startOf t.current path) (stepsOf path) =
      .found parent .directory := by
    rw [locate] at hl
    split at hl
    · cases hl
    · split at hl
      · cases hl
      · exact hl
  have hleads := (exists_leads_of_follow h.linkFree hfollow).filter_here h.linkFree
  rw [filter_stepsOf, startOf_eq_origin] at hleads
  have hr := hn.isPlain.isRead
  have hhead : name.head? ≠ some '/' := fun hhead => hr.slash_not_mem (List.mem_of_head? hhead)
  have hnames : (Path.ofText name).names = [name] := by
    rw [Path.ofText, List.splitOn_eq_singleton hr.slash_not_mem]
    simp [hr.isName]
  refine ⟨content, ?_⟩
  rw [Path.ofText_within, Path.join_of_relative _ (Anchor.ofText_eq_relative_iff.2 hhead), hnames]
  have hfile : t.find? (parent ++ [name]) = some (.file content) := hf ▸ h.isFile
  calc t.follow true maxLinks (t.origin (.ofText path)) ((Path.ofText path).names ++ [name])
    _ = t.follow true maxLinks parent [name] := hleads.follow_append (.inr rfl)
    _ = .found f (.file content) := by rw [follow_file hn.isDownward hfile, if_pos rfl, hf]

/-- The names in a directory without the file are those with it, but for the file's. -/
theorem mem_namesIn_removeBelow_iff (hw : t.WellFormed) (h : t.PlainFile f content)
    {directory : Location} {name : FileName} :
    name ∈ (t.removeBelow f).namesIn directory ↔
      name ∈ t.namesIn directory ∧ directory ++ [name] ≠ f := by
  rw [mem_namesIn_iff, mem_namesIn_iff]
  constructor
  · rintro ⟨e, he, heq⟩
    obtain ⟨hmem, hnot⟩ := List.mem_filter.1 he
    refine ⟨⟨e, hmem, heq⟩, ?_⟩
    rintro rfl
    rw [heq, List.isPrefixOf_iff_prefix.2 (List.prefix_refl _)] at hnot
    cases hnot
  · rintro ⟨⟨e, he, heq⟩, hne⟩
    refine ⟨e, List.mem_filter.2 ⟨he, ?_⟩, heq⟩
    rw [Bool.not_eq_true', Bool.eq_false_iff]
    intro hp
    -- nothing stands below a file
    obtain ⟨entry, hl⟩ := exists_mem_of_mem he
    have hfind : t.find? e.1 = some entry := by
      rw [find?, if_neg (hw.parent_of_mem e he).1]
      exact hl
    have hdirectory := find?_eq_directory_of_isPrefix hw hfind (List.isPrefixOf_iff_prefix.1 hp)
      (fun hfe => hne (heq ▸ hfe.symm))
    rw [h.isFile] at hdirectory
    cases hdirectory

end PlainFile

end FileTree

end FrontLint
