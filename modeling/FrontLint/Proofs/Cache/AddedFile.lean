import FrontLint.Proofs.Cache.Away
import FrontLint.Proofs.Cache.Creation
import FrontLint.Proofs.Cache.Mirror
import FrontLint.Proofs.Files.Added

/-!
# A cache beside a file

A file that is neither at nor below the directory for caches, nor on the way to it, is not looked
at when a cache is made. What the cache does then is confined to its root, so the file is looked
at only when it is read itself.
-/

namespace FrontLint

namespace FileTree

/-- A location neither at nor below the directory of a path nor on its way. -/
structure IsApart (t : FileTree) (f : Location) (directory : Path) : Prop where
  not_isPrefix : ¬ (t.resolve directory).names <+: f
  ne : ∀ names, names <+: directory.names →
    (t.resolve ⟨directory.anchor, names⟩).names ≠ f

/-- A well-formed tree without links, whose entries have proper names, and a file in it. -/
structure HoldsFile (t : FileTree) (f : Location) (content : Bytes) : Prop where
  plainFile : t.PlainFile f content
  wellFormed : t.WellFormed
  properNames : t.ProperNames

/-- A new file in a tree without links. -/
theorem HasRoom.holdsFile {t : FileTree} {f : Location} (h : t.HasRoom f) (hw : t.WellFormed)
    (hlinks : t.LinkFree []) (hp : t.ProperNames) (content : Bytes) :
    (t.put f (.file content)).HoldsFile f content := by
  obtain ⟨parent, name, rfl, hn, hparent⟩ := h.exists_parent
  have hne : parent ++ [name] ≠ [] := by simp
  constructor
  case wellFormed => exact hw.put hparent (by simp [h.free])
  case properNames => exact hp.put hparent hn _
  case plainFile =>
    constructor
    case linkFree => exact hlinks.put hne (by simp)
    case isFile => rw [find?_put t hne, if_pos rfl]
    case current =>
      intro hcurrent
      have hnone := find?_eq_none_of_isPrefix hw h.free hcurrent
      rw [current_put, hw.current] at hnone
      cases hnone

/-- The path of a directory leads where it leads without the file. -/
theorem IsApart.put {t : FileTree} {f location : Location} {directory : Path}
    (h : t.IsApart f directory) (hlinks : t.LinkFree []) {entry : Entry}
    (hlinks' : (t.put location entry).LinkFree []) :
    (t.put location entry).IsApart f directory := by
  have hresolve : ∀ p, ((t.put location entry).resolve p).names = (t.resolve p).names := by
    intro p
    rw [names_resolve hlinks', names_resolve hlinks]
    rfl
  exact ⟨by rw [hresolve]; exact h.not_isPrefix,
    fun names hn => by rw [hresolve]; exact h.ne names hn⟩

namespace HoldsFile

variable {before t t' : FileTree} {f directory : Location} {content : Bytes} {name : FileName}
  {p : Path}

theorem put_directory (h : t.HoldsFile f content) (hd : t.find? directory = some .directory)
    (hn : name.IsProper) (hfree : t.find? (directory ++ [name]) = none) :
    (t.put (directory ++ [name]) .directory).HoldsFile f content := by
  have hne : directory ++ [name] ≠ [] := by simp
  constructor
  case wellFormed => exact h.wellFormed.put hd (by simp [hfree])
  case properNames => exact h.properNames.put hd hn .directory
  case plainFile =>
    constructor
    case linkFree => exact h.plainFile.linkFree.put hne (by simp)
    case isFile => exact find?_put_of_find?_eq_none hne hfree h.plainFile.isFile
    case current => exact h.plainFile.current

theorem makeDirectory (h : t.HoldsFile f content) (hr : p.IsRead)
    (hm : t.makeDirectory p.text = .ok t') :
    t'.HoldsFile f content ∧ t'.current = t.current := by
  obtain ⟨parent, name, hfollow, rfl⟩ := makeDirectory_text hr hm
  obtain ⟨front, left, hnames, hleads, hdown, hfree⟩ := LeadsToFree.of_follow hfollow
  have hmem : name ∈ p.names := by simp [hnames]
  have hproper : name.IsProper :=
    ⟨⟨hr name hmem, hdown.ne_above⟩,
      fun hnul => (takes_of_makeDirectory hm).nul_not_mem (Path.mem_text hmem hnul),
      hdown.length_le⟩
  have hparent := hleads.find?_eq_directory h.wellFormed (h.wellFormed.origin p)
  exact ⟨h.put_directory hparent hproper hfree, rfl⟩

/-- Making the directory for caches is not to look at a file apart from it. -/
theorem spares (h : before.HoldsFile f content) (hr : p.IsRead) (hapart : before.IsApart f p) :
    Spares (fun t => t.HoldsFile f content ∧ t.current = before.current) f p where
  makeDirectory t t' names hnames ht hm := by
    obtain ⟨ht', hcur⟩ := ht.1.makeDirectory (fun name hn => hr name (hnames.subset hn)) hm
    exact ⟨ht', hcur.trans ht.2⟩
  avoids t names hnames ht := by
    refine ht.1.plainFile.avoids fun htouch => ?_
    rw [Touches, consults_text fun name hn => hr name (hnames.subset hn)] at htouch
    obtain ⟨front, hfront, hf⟩ := htouch.exists_landing_eq ht.1.plainFile.linkFree
    refine hapart.ne front (hfront.trans hnames) ?_
    rw [names_resolve h.plainFile.linkFree, ← hf, origin, origin, ht.2]
    rfl

/-- Nor is making the root in it. -/
theorem avoids_attach (h : before.HoldsFile f content) (hr : p.IsRead) (hn : name.IsPlain)
    (hapart : before.IsApart f p) (ht : t.HoldsFile f content)
    (hcur : t.current = before.current) : t.Avoids (Glob.attach p.text name) f := by
  refine ht.plainFile.avoids fun htouch => ?_
  rw [touches_iff ht.plainFile.linkFree, Path.ofText_attach hr hn.isRead] at htouch
  obtain ⟨front, hfront, hf⟩ := htouch.exists_landing_eq ht.plainFile.linkFree
  have horigin : ∀ names, t.origin (p.child name) = before.origin ⟨p.anchor, names⟩ := by
    intro names
    rw [origin, origin, hcur]
    rfl
  rcases List.prefix_concat_iff.1 hfront with rfl | hfront
  · refine hapart.not_isPrefix ?_
    rw [names_resolve h.plainFile.linkFree, ← hf, landing_append, horigin p.names, landing,
      if_neg hn.isRead.ne_here, if_neg hn.ne_above]
    exact List.prefix_append _ _
  · refine hapart.ne front hfront ?_
    rw [names_resolve h.plainFile.linkFree, ← hf, horigin front]

end HoldsFile

end FileTree

namespace Cache

open FileTree

variable {directory base : Path} {name : FileName} {c : Cache} {outer t : FileTree}
  {f place : Location} {content : Bytes}

/-- A cache is made the same without a file apart from it. -/
theorem create_removeBelow_of_holdsFile (h : t.HoldsFile f content) (hd : directory.IsRead)
    (hname : name.IsPlain) (hapart : t.IsApart f directory) (base : Path) :
    create directory base name (t.removeBelow f) =
      ((create directory base name t).1, (create directory base name t).2.removeBelow f) :=
  create_removeBelow (h.spares hd hapart) h.plainFile.ne_nil ⟨h, rfl⟩
    fun _ ht => h.avoids_attach hd hname hapart ht.1 ht.2

theorem holdsFile_ensurePath (h : t.HoldsFile f content) (hd : directory.IsRead)
    (hapart : t.IsApart f directory) : (t.ensurePath directory).2.HoldsFile f content :=
  ((h.spares hd hapart).ensurePath ⟨h, rfl⟩).1

theorem holdsFile_create (h : t.HoldsFile f content) (hd : directory.IsRead)
    (hname : name.IsPlain) (hapart : t.IsApart f directory)
    (hc : (create directory base name t).1.result = .ok c) :
    (create directory base name t).2.HoldsFile f content := by
  obtain ⟨-, -, parent, hroot, hafter⟩ := exists_rootFree hd hname hc
  obtain ⟨left, hleads⟩ := hroot.exists_leads
  have hmade := holdsFile_ensurePath h hd hapart
  have hparent := hleads.find?_eq_directory hmade.wellFormed (hmade.wellFormed.origin directory)
  have hproper : name.IsProper := by
    refine ⟨hname, fun hnul => hroot.takes.nul_not_mem ?_, hroot.isDownward.length_le⟩
    rw [Glob.attach]
    split
    · exact hnul
    · split <;> simp [hnul]
  rw [hafter]
  exact hmade.put_directory hparent hproper hroot.free

namespace Confined

theorem not_isPrefix_of_find? (h : c.Confined place outer t) {entry : Entry}
    (hf : outer.find? f = some entry) : ¬ place <+: f := by
  intro hp
  rw [← h.removeBelow_eq, find?_removeBelow t h.namesDirectory.ne_nil, if_pos hp] at hf
  cases hf

/-- In its root a cache makes no links, and it leaves a file outside of the root. -/
theorem plainFile (h : c.Confined place outer t) (hf : outer.PlainFile f content) :
    t.PlainFile f content := by
  have hp := h.not_isPrefix_of_find? hf.isFile
  constructor
  case linkFree =>
    intro location target _ hl
    by_cases hplace : place <+: location
    · exact h.linkFree location target hplace hl
    · rw [h.find?_eq_outer hplace] at hl
      exact hf.linkFree.find?_ne_link location target hl
  case isFile => rw [h.find?_eq_outer hp, hf.isFile]
  case current =>
    rw [h.current_eq]
    exact hf.current

/-- On the way to what is in its root a cache does not look at a file outside of it. -/
theorem avoids_file (h : c.Confined place outer t) (hf : outer.PlainFile f content)
    {names front : List FileName} (hplain : ∀ name ∈ names, name.IsPlain)
    (hfront : front <+: c.root.names ++ names) :
    t.Avoids (Path.mk c.root.anchor front).text f := by
  have ht := h.plainFile hf
  refine ht.avoids fun htouch => ?_
  have hread := h.isRead_behind hplain
  rw [Touches, consults_text fun name hn => hread name (hfront.subset hn)] at htouch
  obtain ⟨more, hmore⟩ := hfront
  have hall := htouch.append more
  rw [hmore] at hall
  obtain ⟨left, hleads⟩ := h.namesDirectory.leads
  have hkeep : ∀ location entry, t.find? location = some entry → t.find? location = some entry :=
    fun _ _ h => h
  rcases hleads.consults_append hkeep hall with ⟨entry, hfind, hkind⟩ | hbelow
  · rw [ht.isFile] at hfind
    cases hfind
    exact hkind content rfl
  · exact h.not_isPrefix_of_find? hf.isFile (isPrefix_of_consults h.linkFree hplain hbelow)

theorem spares_file (h : c.Confined place outer t) (hf : outer.PlainFile f content)
    {source : Path} (hs : source.IsRead) :
    Spares (c.Confined place outer) f (c.pathFor source) where
  makeDirectory t t' names hnames ht hm := by
    obtain ⟨location, hputs, -, rfl⟩ := ht.makeDirectory (fun _ =>
      isPlain_of_mem_namesFor h.base_isAbsolute h.base_isRead hs) hnames hm
    exact ht.put hputs
  avoids t names hnames ht := ht.avoids_file hf (fun _ =>
    isPlain_of_mem_namesFor h.base_isAbsolute h.base_isRead hs) hnames

end Confined

end Cache

end FrontLint
